import UsbTransfer.Proofs.LifecycleSteps.Sessions
import UsbTransfer.Proofs.Teardown

/-!
# Buffers and their lengths

The requested length of a transfer is the length of its buffer until the buffer is handed over.  All
that is done to a batch before keeps it so, and an allocation that is refused changes nothing.  The
buffer leaves with the completion, and nothing else of the plain data is changed while a batch ends:
its bus is shown the transfer as it was when the end began, without the buffer if the handler was
invoked.
-/

namespace UsbTransfer

open Run

namespace Transfer

/-- All of the buffer, and no more, is to be transferred. -/
def Coherent (t : Transfer) : Prop :=
  t.buffer.length = t.requested

variable {t t' : Transfer}

/-- A part of the buffer is overwritten in place. -/
theorem length_write? {start : Nat} {bytes : List UInt8} (h : t.write? start bytes = some t') :
    t'.buffer.length = t.buffer.length ∧ t'.requested = t.requested := by
  unfold write? at h
  split at h
  · next hfits =>
      obtain rfl := Option.some.inj h
      constructor
      · simp only [List.length_append, List.length_take, List.length_drop]
        omega
      · rfl
  · cases h

theorem Edit.coherent (h : Edit t t') (ht : t.Coherent) : t'.Coherent := by
  cases h with
  | setScope | complete | cancel => exact ht
  | setBuffer => rfl
  | setSetup h =>
      unfold Transfer.setSetup at h
      split at h
      · cases h
        exact ht
      · cases h
  | allocBuffer h =>
      unfold allocBuffer? at h
      split at h
      · cases h
        rfl
      · cases h
  | write h =>
      obtain ⟨hlength, hrequested⟩ := length_write? h
      unfold Coherent
      rw [hlength, hrequested]
      exact ht
  | schedule h =>
      unfold Transfer.schedule at h
      split at h
      · cases h
        exact ht
      · cases h

end Transfer

/-- Buffers that were not handed over have the length that is requested. -/
def World.Coherent (w : World) : Prop :=
  ∀ b, w.Unspent b → (w.state.transferOf b).Coherent

variable {hands : Hands} {w w' : World} {b : Key Batch}

theorem Change.coherent (h : Change hands w w') (hw : w.Coherent) : w'.Coherent := by
  intro b hunspent
  have hbefore : (w.state.transferOf b).Coherent :=
    hw b (hunspent.of_suffix h.adds.suffix)
  -- one batch is changed at most
  have hmodified : ∀ (b' : Key Batch) (f : Batch → Batch),
      (b = b' → (f (w.state.batches.get b')).transfer.Coherent) →
        ((w.state.batches.modify b' f).get b).transfer.Coherent := by
    intro b' f hf
    rw [Arena.get_modify]
    split
    · next heq => exact hf heq.1
    · exact hbefore
  cases h with
  | uninstall hslot =>
      obtain ⟨_, -, rfl⟩ := State.uninstall?_eq_some hslot
      exact hbefore
  | build =>
      simp only [World.note_state, World.alter_state, State.addBatch, State.transferOf,
        Arena.get_push]
      split
      · rfl
      · exact hbefore
  | edit _ hedit =>
      refine hmodified _ _ fun heq => ?_
      subst heq
      exact hedit.coherent hbefore
  | @handOver b' handler =>
      simp only [World.note_state, World.alter_state, State.setTransfer, State.detachHandler,
        State.transferOf, Arena.modify_modify]
      refine hmodified _ _ fun heq => ?_
      subst heq
      exact absurd ⟨_, _, _, rfl⟩ (hunspent _ List.mem_cons_self)
  | giveUpEndpoint | detachHandler | attachHandler | detachData | attachData | changeData =>
      refine hmodified _ _ fun heq => ?_
      subst heq
      exact hbefore
  | _ => exact hbefore

theorem Changes.coherent (h : Changes Hands.empty World.empty w) : w.Coherent :=
  kept_of_steps (fun _ _ => Change.coherent) h fun _ _ => rfl

/-! ## One moment among others -/

/-- What is there once at most stands at one place. -/
theorem eq_of_countP_le_one {α : Type} {p : α → Bool} {l rest rest' : List α} {x x' : α}
    (hone : l.countP p ≤ 1) (hx : x :: rest <:+ l) (hx' : x' :: rest' <:+ l) (hp : p x)
    (hp' : p x') :
    x :: rest = x' :: rest' := by
  have hlater : ∀ {y y' : α} {tail tail' : List α}, y :: tail <:+ y' :: tail' →
      y' :: tail' <:+ l → p y → p y' → y :: tail = y' :: tail' := by
    intro y y' tail tail' hy hy' hpy hpy'
    rcases List.suffix_cons_iff.mp hy with heq | hsuffix
    · exact heq
    · have htwo : 2 ≤ (y' :: tail').countP p := by
        have hpos : 0 < tail'.countP p :=
          List.countP_pos_iff.mpr ⟨y, hsuffix.subset List.mem_cons_self, hpy⟩
        rw [List.countP_cons_of_pos hpy']
        omega
      have hle := hy'.sublist.countP_le (p := p)
      omega
  rcases List.suffix_or_suffix_of_suffix hx hx' with hsuffix | hsuffix
  · exact hlater hsuffix hx' hp hp'
  · exact (hlater hsuffix hx hp' hp).symm

/-- What is recorded once at most since some world was recorded at one moment. -/
theorem World.Trace.eq_of_countP_le_one {all : List Occurrence} {p : Occurrence → Bool}
    {m m' : Moment} {earlier earlier' : List Moment} (h : w.Trace all w')
    (hone : all.countP p ≤ 1) (hm : m :: earlier <:+ w'.history) (hafter : w.history <:+ earlier)
    (hm' : m' :: earlier' <:+ w'.history) (hafter' : w.history <:+ earlier')
    (ho : p m.occurrence) (ho' : p m'.occurrence) :
    m :: earlier = m' :: earlier' := by
  obtain ⟨since, hsince, rfl⟩ := h
  obtain ⟨part, rfl⟩ := hafter
  obtain ⟨part', rfl⟩ := hafter'
  have hpart : ∀ {m : Moment} {part : List Moment}, m :: (part ++ w.history) <:+ w'.history →
      m :: part <:+ since := by
    rintro m part ⟨before, hbefore⟩
    rw [hsince, ← List.cons_append, ← List.append_assoc] at hbefore
    exact ⟨before, List.append_cancel_right hbefore⟩
  rw [List.countP_map, List.countP_reverse] at hone
  have hsame := UsbTransfer.eq_of_countP_le_one hone (hpart hm) (hpart hm') ho ho'
  rw [← List.cons_append, ← List.cons_append, hsame]

/-- What was recorded at a moment since is in the trace. -/
theorem World.Trace.mem_of_suffix {all : List Occurrence} {m : Moment} {earlier : List Moment}
    (h : w.Trace all w') (hm : m :: earlier <:+ w'.history) (hafter : w.history <:+ earlier) :
    m.occurrence ∈ all := by
  obtain ⟨since, hsince, rfl⟩ := h
  obtain ⟨part, rfl⟩ := hafter
  obtain ⟨before, hbefore⟩ := hm
  rw [hsince, ← List.cons_append, ← List.append_assoc] at hbefore
  have hmem : m ∈ since := by
    rw [← List.append_cancel_right hbefore]
    exact List.mem_append_right _ List.mem_cons_self
  exact List.mem_map_of_mem (List.mem_reverse.mpr hmem)

namespace Batch

variable {play : Player} {ending : Ending} {invoked : Option Handler}

/-! ## Steps that count -/

theorem kind?_eq_told_iff {o : Occurrence} :
    o.kind? b = some .told ↔ ∃ bus, o = .batchFarewell bus b := by
  cases o <;> simp [Occurrence.kind?]

theorem kind?_eq_invoked_iff {o : Occurrence} :
    o.kind? b = some .invoked ↔ ∃ n name? c, o = .handlerInvoked b n name? c := by
  cases o <;> simp [Occurrence.kind?]

/-- A handler was invoked since some world if and only if the trace since then tells so. -/
theorem unspent_iff_of_trace {all : List Occurrence} (h : w.Trace all w')
    (hunspent : w.Unspent b) :
    w'.Unspent b ↔ EndKind.invoked ∉ all.filterMap (Occurrence.kind? b) := by
  obtain ⟨since, hsince, rfl⟩ := h
  simp only [List.mem_filterMap, List.mem_map, List.mem_reverse, kind?_eq_invoked_iff]
  constructor
  · rintro hunspent' ⟨_, ⟨m, hm, rfl⟩, hinvoked⟩
    exact hunspent' m (hsince ▸ List.mem_append_left _ hm) hinvoked
  · intro hnone m hm hinvoked
    rcases List.mem_append.mp (hsince ▸ hm) with hm | hm
    · exact hnone ⟨_, ⟨m, hm, rfl⟩, hinvoked⟩
    · exact hunspent m hm hinvoked

/-! ## What is left of the plain data -/

/-- The buffer leaves with the completion, if a handler gets that. -/
theorem Delivers.transfer {r : Except Fault Unit} (h : Delivers hands b w r w')
    (hloose : w.Loose b) :
    w'.state.transferOf b =
      if (w.state.batches.get b).handler.isSome then (w.state.transferOf b).withoutBuffer
      else w.state.transferOf b := by
  cases h with
  | nothing hnone => simp [hnone]
  | handed hhandler hmoves | failed hhandler hmoves =>
      have htransfer := congrArg Batch.transfer (handed_rest hloose hmoves).1
      simp only [hhandler, Option.isSome_some, if_true]
      exact htransfer

theorem Completes.transfer {r : Except Fault Unit} (h : Completes play hands b w r w')
    (hloose : w.Loose b)
    (hinterrupted : (resetToggles play b).Faults (w.note (.finishing b)) → invoked = none)
    (hinvoked : ¬ (resetToggles play b).Faults (w.note (.finishing b)) →
      invoked = (w.state.batches.get b).handler) :
    w'.state.transferOf b =
      if invoked.isSome then (w.state.transferOf b).withoutBuffer else w.state.transferOf b := by
  cases h with
  | interrupted hfaults hreset =>
      obtain ⟨hsame, -⟩ := hreset.aside (hloose.note _)
      rw [hinterrupted hfaults]
      exact congrArg Batch.transfer hsame
  | reset hreturns hreset hdeliver =>
      obtain ⟨hsame, hloose₁⟩ := hreset.aside (hloose.note _)
      rw [hdeliver.transfer hloose₁, State.transferOf, hsame, hinvoked hreturns]
      rfl
  | unreset hreturns hreset hdeliver =>
      obtain ⟨hsame, hloose₁⟩ := hreset.aside (hloose.note _)
      rw [hdeliver.transfer (hloose₁.note _), World.note_state, State.transferOf, hsame,
        hinvoked hreturns]
      rfl

/-- Before its release a batch that ends loses its buffer to its handler, and nothing else of its
plain data. -/
theorem Ending.Begins.transfer {r : Except Fault Unit}
    (h : ending.Begins play hands b w r w') (hloose : w.Loose b)
    (hinvokes : ending.Invokes play b w invoked) :
    w'.state.transferOf b =
      if invoked.isSome then (ending.final (w.state.transferOf b)).withoutBuffer
      else ending.final (w.state.transferOf b) := by
  cases ending with
  | finish =>
      exact Completes.transfer h hloose (fun hfaults => hinvokes.1 ⟨trivial, hfaults⟩)
        fun hreturns => hinvokes.2 fun hinterrupted => hreturns hinterrupted.2
  | abort =>
      have hcancelled := batch_cancelled hloose
      have htransfer :
          (w.alter (·.setTransfer b (w.state.transferOf b).cancel)).state.transferOf b =
            (w.state.transferOf b).cancel :=
        congrArg Batch.transfer hcancelled
      have hinterrupted := fun hfaults => hinvokes.1 ⟨trivial, hfaults⟩
      have hcompleted := Completes.transfer h (loose_cancelled hloose) hinterrupted
        fun hreturns => by
          rw [hcancelled]
          exact hinvokes.2 fun hinterrupted => hreturns hinterrupted.2
      rw [htransfer] at hcompleted
      exact hcompleted
  | destroy | drop =>
      obtain ⟨-, rfl⟩ := h
      rw [hinvokes.2 fun hinterrupted => hinterrupted.1]
      rfl

/-! ## The farewell -/

/-- What the bus of a batch is shown when it is told that the batch goes away: the batch is without
an endpoint and has the plain data with which its end began, but for a buffer that was handed
over. -/
structure Farewell (ending : Ending) (b : Key Batch) (t : Transfer) (s : State)
    (earlier : List Moment) : Prop where
  endpoint : (s.batches.get b).endpoint = none
  unspent : World.Unspent ⟨s, earlier⟩ b → s.transferOf b = ending.final t
  spent : ¬ World.Unspent ⟨s, earlier⟩ b → s.transferOf b = { ending.final t with buffer := [] }
  requested : (s.transferOf b).requested = t.buffer.length

/-- Whatever the bus of a batch is shown is right, and it is shown once, unless the endpoint of the
batch goes away before and that is interrupted. -/
structure BidsFarewell {α : Type} (ending : Ending) (b : Key Batch) (w : World)
    (r : Except Fault α) (w' : World) : Prop where
  shown : ∀ bus s earlier, ⟨.batchFarewell bus b, s⟩ :: earlier <:+ w'.history →
    w.history <:+ earlier → Farewell ending b (w.state.transferOf b) s earlier
  once : ∀ bus s earlier bus' s' earlier', ⟨.batchFarewell bus b, s⟩ :: earlier <:+ w'.history →
    w.history <:+ earlier → ⟨.batchFarewell bus' b, s'⟩ :: earlier' <:+ w'.history →
      w.history <:+ earlier' → s = s' ∧ earlier = earlier'
  told : (∃ bus s earlier, ⟨.batchFarewell bus b, s⟩ :: earlier <:+ w'.history ∧
      w.history <:+ earlier) ∨
    (∃ fault, r = .error fault) ∧ ∃ bus e s earlier,
      ⟨.endpointFarewell bus e, s⟩ :: earlier <:+ w'.history ∧ w.history <:+ earlier

/-- What is on record when a batch begins to give its endpoint up stays there. -/
theorem suffix_of_loses {e : Key Endpoint} {w₁ w₂ : World} (h : (givenUp b e w₁).Loses e w₂) :
    w₁.history <:+ w₂.history := by
  have hgiven : w₁.history <:+ (givenUp b e w₁).history := List.suffix_cons _ _
  cases h with
  | shared => exact hgiven.trans (List.suffix_cons _ _)
  | last => exact hgiven.trans ((List.suffix_cons _ _).trans (List.suffix_cons _ _))

/-- The end of a batch as its bus sees it: in the first world the batch is ready to be released, and
when the bus is told, it has lost its endpoint since and nothing else. -/
inductive Parts (ending : Ending) (b : Key Batch) (w : World) (failed : Prop) (w' : World) :
    Prop where
  | intro {invoked : Option Handler} {opening all : List Occurrence} {told : List EndKind}
      {w₁ : World}
      (hopening : w.Trace opening w₁)
      (hbegun : opening.filterMap (Occurrence.kind? b) =
        (invoked.map fun _ => EndKind.invoked).toList)
      (htransfer : w₁.state.transferOf b =
        if invoked.isSome then (ending.final (w.state.transferOf b)).withoutBuffer
        else ending.final (w.state.transferOf b))
      (hall : w.Trace all w')
      (hkinds : all.filterMap (Occurrence.kind? b) =
        (invoked.map fun _ => EndKind.invoked).toList ++ .givenUp :: told)
      (htold : (told = [] ∧ failed ∧ ∃ bus e s earlier,
          ⟨.endpointFarewell bus e, s⟩ :: earlier <:+ w'.history ∧ w.history <:+ earlier) ∨
        told = [.told] ∧ ∃ bus s earlier,
          ⟨.batchFarewell bus b, s⟩ :: earlier <:+ w'.history ∧ w₁.history <:+ earlier ∧
            s.batches.get b = { w₁.state.batches.get b with endpoint := none }) :
      Parts ending b w failed w'

theorem Course.parts {r : Except Fault Unit}
    (h : Course play hands b (ending.Begins play hands b w) r w') (hw : w.Ready hands)
    (hb : hands.MayEnd b) (hloose : w.Loose b)
    (hlive : (w.state.batches.get b).endpoint.isSome) :
    Parts ending b w (∃ fault, r = .error fault) w' := by
  obtain ⟨e, he⟩ := Option.isSome_iff_exists.mp hlive
  obtain @⟨r₁, r₂, r₃, r₄, w₁, w₃, w₄, w₅, hbegin, hrelease, hhandler, hdata⟩ := h
  obtain ⟨hbefore, hendpoint, hloose₁⟩ := hbegin.moves hw.sound hb hloose
  obtain ⟨met, haside, hopening, hinvokes, -⟩ := hbegin.trace hloose he
  obtain ⟨w₂, nested, farewell, hloses, hnested, hreleased, hlater, hskipped, htold⟩ :=
    hrelease.trace hloose₁ (hendpoint.trans he)
  obtain ⟨-, hloose₃⟩ := hrelease.rest hloose₁
  obtain ⟨inHandler, hinHandler, hshed⟩ := hhandler.trace hloose₃
  obtain ⟨-, hloose₄⟩ := hhandler.rest_handler hloose₃
  obtain ⟨inData, hinData, hshed'⟩ := hdata.trace hloose₄
  have hgiven := (hopening.trans (World.Trace.alter w₁ (·.detachEndpoint b))).around hreleased
  have hall := ((hgiven.trans hshed).trans hshed').note (.batchEnded b)
  have hlast : w₃.history <:+ (w₅.note (.batchEnded b)).history :=
    (hshed.suffix.trans hshed'.suffix).trans (List.suffix_cons _ _)
  refine @Parts.intro _ _ _ _ _ _ _ _ (farewell.filterMap (Occurrence.kind? b)) _ hopening
    (kinds_opening haside hinvokes) (hbegin.transfer hloose hinvokes) hall ?_ ?_
  · simp only [List.filterMap_append, List.filterMap_cons, List.filterMap_nil,
      kinds_opening haside hinvokes, kinds_aside hnested, kinds_shedding hinHandler,
      kinds_shedding hinData, Occurrence.kind?, reduceIte, List.append_nil, List.nil_append]
  · by_cases hfaults : (Endpoint.release play e).Faults (givenUp b e w₁)
    · left
      obtain ⟨rfl, hone⟩ := hskipped hfaults
      refine ⟨rfl, ?_, ?_⟩
      · have hfailed : ∀ a, r₂ ≠ .ok a := by
          rintro a rfl
          cases hrelease with
          | before hnone => simp [hendpoint, he] at hnone
          | done he' hreturns =>
              obtain rfl := Option.some.inj ((hendpoint.trans he).symm.trans he')
              exact hreturns hfaults
        cases hr : settled (settled r₁ r₂) (settled r₃ r₄) with
        | ok a => exact absurd (settled_eq_ok.mp (settled_eq_ok.mp hr).1).2 (hfailed ())
        | error fault => exact ⟨fault, rfl⟩
      · cases hloses with
        | shared hshared => exact absurd hone (Nat.ne_of_gt hshared)
        | last =>
            exact ⟨_, _, _, _, hlater.trans hlast, hopening.suffix.trans
              ((List.suffix_cons _ _).trans (List.suffix_cons _ _))⟩
    · right
      obtain ⟨meanwhile, reply, s, earlier, hsteps, rfl, hs, hsuffix, hafter⟩ := htold hfaults
      have hmeanwhile : meanwhile.filterMap (Occurrence.kind? b) = [] :=
        List.filterMap_eq_nil_iff.mpr fun o ho =>
          Occurrence.kind?_eq_none_of_unstepped (hsteps o ho)
      refine ⟨?_, _, s, earlier, hsuffix.trans hlast, (suffix_of_loses hloses).trans hafter, hs⟩
      cases reply <;>
        simp [hmeanwhile, Occurrence.kind?]

theorem final_requested (ending : Ending) (t : Transfer) :
    (ending.final t).requested = t.requested := by
  cases ending <;> rfl

theorem Parts.bidsFarewell {α : Type} {r : Except Fault α}
    (h : Parts ending b w (∃ fault, r = .error fault) w') (hunspent : w.Unspent b)
    (hcoherent : (w.state.transferOf b).Coherent) :
    BidsFarewell ending b w r w' := by
  obtain @⟨invoked, opening, all, told, w₁, hopening, hbegun, htransfer, hall, hkinds, htold⟩ := h
  have hone : all.countP (fun o => o.kind? b = some .told) ≤ 1 := by
    have hcount : all.countP (fun o => o.kind? b = some .told) =
        (all.filterMap (Occurrence.kind? b)).count .told := by
      rw [List.count, List.countP_filterMap]
      refine List.countP_congr fun o _ => ?_
      cases o.kind? b <;> simp
    rw [hcount, hkinds]
    rcases htold with ⟨rfl, -⟩ | ⟨rfl, -⟩ <;> cases invoked <;> simp
  have hsame : ∀ {bus s earlier bus' s' earlier'},
      ⟨.batchFarewell bus b, s⟩ :: earlier <:+ w'.history → w.history <:+ earlier →
        ⟨.batchFarewell bus' b, s'⟩ :: earlier' <:+ w'.history → w.history <:+ earlier' →
          s = s' ∧ earlier = earlier' := by
    intro bus s earlier bus' s' earlier' hm hafter hm' hafter'
    have heq := hall.eq_of_countP_le_one hone hm hafter hm' hafter'
      (by simp [Occurrence.kind?]) (by simp [Occurrence.kind?])
    obtain ⟨hmoment, rfl⟩ := List.cons.inj heq
    exact ⟨congrArg Moment.state hmoment, rfl⟩
  constructor
  case shown =>
    intro bus s earlier hm hafter
    rcases htold with ⟨rfl, -⟩ | ⟨rfl, bus', s', earlier', hm', hafter', hs⟩
    · have htold : EndKind.told ∈ all.filterMap (Occurrence.kind? b) :=
        List.mem_filterMap.mpr ⟨_, hall.mem_of_suffix hm hafter, kind?_eq_told_iff.mpr ⟨bus, rfl⟩⟩
      rw [hkinds] at htold
      cases invoked <;> simp at htold
    · obtain ⟨rfl, rfl⟩ := hsame hm hafter hm' (hopening.suffix.trans hafter')
      have hkept : s.transferOf b = w₁.state.transferOf b := by
        rw [State.transferOf, hs]
        rfl
      have hspent : World.Unspent ⟨s, earlier⟩ b ↔ invoked = none := by
        constructor
        · intro hearlier
          have hbefore : w₁.Unspent b := hearlier.of_suffix hafter'
          rw [unspent_iff_of_trace hopening hunspent, hbegun] at hbefore
          cases invoked with
          | none => rfl
          | some handler => exact absurd List.mem_cons_self hbefore
        · rintro rfl
          have hlater : w'.Unspent b := by
            rw [unspent_iff_of_trace hall hunspent, hkinds]
            simp
          exact hlater.of_suffix ((List.suffix_cons _ _).trans hm)
      rw [htransfer] at hkept
      refine ⟨congrArg Batch.endpoint hs, fun hearlier => ?_, fun hearlier => ?_, ?_⟩
      · rw [hkept, hspent.mp hearlier]
        rfl
      · cases invoked with
        | none => exact absurd (hspent.mpr rfl) hearlier
        | some handler => exact hkept
      · have hrequested : (ending.final (w.state.transferOf b)).requested =
            (w.state.transferOf b).buffer.length :=
          (final_requested ending _).trans hcoherent.symm
        rw [hkept]
        split <;> exact hrequested
  case once => exact fun _ _ _ _ _ _ hm hafter hm' hafter' => hsame hm hafter hm' hafter'
  case told =>
    rcases htold with ⟨-, hfailed, hgone⟩ | ⟨-, bus, s, earlier, hm, hafter, -⟩
    · exact .inr ⟨hfailed, hgone⟩
    · exact .inl ⟨bus, s, earlier, hm, hopening.suffix.trans hafter⟩

/-- However an operation ends a batch that it has for itself, the bus is shown what the batch was
when its end began. -/
theorem Own.ensures_bidsFarewell (h : Own hands b w) (hplay : play.Fair) (hw : w.Ready hands)
    (hunspent : w.Unspent b) (hcoherent : w.Coherent) (ending : Ending) :
    Ensures (ending.run play b) w fun r w' => BidsFarewell ending b w r w' := by
  apply Ensures.mono (ensures_ending hplay hw h.loose h.mayEnd ending)
  intro r w' hcourse
  exact (hcourse.parts hw h.mayEnd h.loose h.endpoint).bidsFarewell hunspent (hcoherent b hunspent)

end Batch

namespace Session

/-- Buffers are as long as is requested, and when a bus is told of the end of a batch, it is shown
what the batch was before. -/
structure BuffersKept (w : World) : Prop where
  /-- As long as no handler was invoked with it, a buffer has the length that is requested. -/
  coherent : ∀ b, w.Unspent b →
    (w.state.transferOf b).buffer.length = (w.state.transferOf b).requested
  /-- That holds of all batches that have names. -/
  unspent : ∀ b ∈ w.state.directory.batches.values, w.Unspent b
  /-- It also holds of a batch that was just built and that the hook of a bus has at hand, until the
  script of the hook is played, whatever the script does. -/
  building : ∀ b e s earlier, w.history = ⟨.batchBuilt b e, s⟩ :: earlier → w.Loose b →
    w.Unspent b ∧ ∀ limit script, Ensures (player limit (some b) script) w fun _ w' =>
      w'.Unspent b ∧ (w'.state.transferOf b).buffer.length = (w'.state.transferOf b).requested
  /-- Whichever way a batch ends, also if user code gives up meanwhile. -/
  farewell : ∀ (name : String) (b : Key Batch),
    w.state.directory.batches.find? name = some b → ∀ (limit : Nat) (ending : Batch.Ending),
      Ensures (endBatch name fun b => ending.run (player limit) b) w fun r w' =>
        Batch.BidsFarewell ending b w r w'

/-- No handler was invoked with a batch that was just built. -/
theorem Reachable.unspent_built (h : Reachable w) {e : Key Endpoint} {s : State}
    {earlier : List Moment} (hbuilt : w.history = ⟨.batchBuilt b e, s⟩ :: earlier) :
    w.Unspent b ∧ w.Unended b := by
  have hlast : ⟨.batchBuilt b e, s⟩ :: earlier <:+ w.history := hbuilt ▸ List.suffix_refl _
  have hfresh := h.documented.fresh _ _ hlast b e rfl
  have hwithout : ∀ {P : Occurrence → Prop}, (∀ o, P o → o.handled? = some b) →
      ¬ P (.batchBuilt b e) → w.Without P := by
    intro P hP hnot m hm ho
    rcases List.mem_cons.mp (hbuilt ▸ hm) with rfl | hm
    · exact hnot ho
    · exact hfresh m hm (hP _ ho)
  constructor
  · refine hwithout ?_ (by simp)
    rintro o ⟨n, name?, c, rfl⟩
    rfl
  · refine hwithout ?_ (by simp)
    rintro o rfl
    rfl

/-- The script of a hook that has a batch at hand invokes no handler with it. -/
theorem Reachable.ensures_unspent (h : Reachable w) (hloose : w.Loose b) (hunspent : w.Unspent b)
    (hunended : w.Unended b) (limit : Nat) (script : Script) :
    Ensures (player limit (some b) script) w fun _ w' => w'.Unspent b ∧ w'.Coherent := by
  have htame : w.Tame (some b) :=
    { h.tame with
      loose := by
        rintro b' hb'
        exact Option.some.inj hb' ▸ hloose
      unended := by
        rintro b' (hb' | hb')
        · exact h.tame.unended b' (.inl hb')
        · exact Option.some.inj hb' ▸ hunended }
  have hatHand : ∀ b', some b = some b' → Hands.empty.MayTouch b' ∧ w.Loose b' :=
    fun b' hb' => ⟨List.not_mem_nil, Option.some.inj hb' ▸ hloose⟩
  have huses := (usesOnlyAtHand_player limit (some b) script).ensures htame
  have hplayed := player_fair limit Hands.empty (some b) script w h.ready hatHand
  refine Ensures.mono (huses.and hplayed) fun r w' hr => ⟨hr.1.unspent b rfl hunspent, ?_⟩
  have hchanges := hr.2.moves.changes.within (Hands.empty.within_lend b)
  exact Changes.coherent (h.changes.trans hchanges)

/-- Wherever user code looks at a batch before its end, the buffer has the length that is requested.
When a bus is told of the end, it is shown the plain data with which the end began, but for a buffer
that the handler got. -/
theorem Reachable.buffers_kept (h : Reachable w) : BuffersKept w := by
  constructor
  case coherent => exact h.changes.coherent
  case unspent => exact h.documented.unspent
  case building =>
    intro b e s earlier hbuilt hloose
    obtain ⟨hunspent, hunended⟩ := h.unspent_built hbuilt
    refine ⟨hunspent, fun limit script => ?_⟩
    apply Ensures.mono (h.ensures_unspent hloose hunspent hunended limit script)
    exact fun _ _ hr => ⟨hr.1, hr.2 b hr.1⟩
  case farewell =>
    intro name b hfind limit ending
    obtain ⟨hunname, hown⟩ := h.own_unnamed hfind
    have hunspent : w.Unspent b := h.documented.unspent b (Names.mem_values_of_find? hfind)
    rw [ensures_endBatch hfind]
    apply Ensures.mono (hown.ensures_bidsFarewell (player_fair limit) (hunname.ready h.ready)
      hunspent h.changes.coherent ending)
    rintro r w' ⟨hshown, honce, htold⟩
    refine ⟨hshown, honce, htold.imp_right ?_⟩
    rintro ⟨⟨fault, rfl⟩, hgone⟩
    exact ⟨⟨fault, rfl⟩, hgone⟩

/-- A batch is aborted and its handler gives up; its bus is shown how long the buffer was. -/
theorem buffers_kept_aborted :
    ∃ (w : World) (s : State) (earlier : List Moment) (bus : Key Bus), Reachable w ∧
      (endBatch "transfer" (Batch.Ending.abort.run (player 1))).Faults w ∧
      ⟨.batchFarewell bus ⟨0⟩, s⟩ :: earlier <:+
        ((endBatch "transfer" (Batch.Ending.abort.run (player 1))).worldAfter w).history ∧
      (s.batches.get ⟨0⟩).endpoint = none ∧ (s.transferOf ⟨0⟩).requested = 2 := by
  obtain ⟨w, hw⟩ : ∃ w, w = after 1
      [.addBus "hub" (BusPlan.bare Script), .addEndpoint "hub" default "pipe",
        .newBatch "pipe" "transfer", .setBuffer "transfer" [1, 2],
        .allocBuffer "transfer" 4 false,
        .onComplete "transfer" ⟨"lost", some [.raise "lost"], none, [], false⟩] := ⟨_, rfl⟩
  have hreachable : Reachable w := hw ▸ .idle (idle_after 1 _)
  have hbuffer : (w.state.transferOf ⟨0⟩).buffer = [1, 2] := by
    rw [hw]
    decide
  have hfaults : (endBatch "transfer" (Batch.Ending.abort.run (player 1))).Faults w := by
    rw [hw]
    decide
  -- the endpoint has a handle of its own and stays, so its bus is called for the batch only
  have hstays : ∀ m ∈ ((endBatch "transfer"
      (Batch.Ending.abort.run (player 1))).worldAfter w).history,
        m.occurrence.asked? ≠ none → m.occurrence.batch? ≠ none := by
    rw [hw]
    decide
  have hended : Ensures (endBatch "transfer" (Batch.Ending.abort.run (player 1))) w fun _ w' =>
      ∃ r : Except Fault Result, Batch.BidsFarewell .abort ⟨0⟩ w r w' := by
    apply Ensures.mono (hreachable.buffers_kept.farewell "transfer" ⟨0⟩ (by rw [hw]; decide) 1
      .abort)
    exact fun r w' hr => ⟨r, hr⟩
  obtain ⟨r, hshown, -, htold⟩ := hended.worldAfter
  rcases htold with ⟨bus, s, earlier, hm, hafter⟩ | ⟨-, bus, e, s, earlier, hm, -⟩
  · have hfarewell := hshown bus s earlier hm hafter
    refine ⟨w, s, earlier, bus, hreachable, hfaults, hm, hfarewell.endpoint, ?_⟩
    rw [hfarewell.requested, hbuffer]
    rfl
  · exact absurd rfl (hstays _ (hm.subset List.mem_cons_self) (Option.some_ne_none bus))

end Session

end UsbTransfer
