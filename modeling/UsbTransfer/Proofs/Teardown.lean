import UsbTransfer.Proofs.Bystanders
import UsbTransfer.Proofs.Lifetimes
import UsbTransfer.Proofs.Serials

/-!
# Teardown

However an end is interrupted, nothing of the batch is left behind and nothing is done twice.  The
steps that matter come in one order, and which of them are left out tells where user code gave up.
-/

namespace UsbTransfer

open Run

/-- The steps of an end that must not be made twice: the handler is invoked, the reference on the
endpoint is given up, and the bus is told. -/
inductive EndKind where
  | invoked
  | givenUp
  | told
deriving DecidableEq

namespace Occurrence

/-- What step of the end of the batch the occurrence is, if it is one that counts. -/
def kind? (b : Key Batch) : Occurrence → Option EndKind
  | .handlerInvoked b' _ _ _ => if b' = b then some .invoked else none
  | .endpointGivenUp b' _ => if b' = b then some .givenUp else none
  | .batchFarewell _ b' => if b' = b then some .told else none
  | _ => none

/-- The item is destroyed. -/
def destroys : Item → Occurrence → Bool
  | .handler b n, .handlerDestroyed b' n' _ => b' = b ∧ n' = n
  | .data b n, .dataDestroyed b' n' _ => b' = b ∧ n' = n
  | _, _ => false

theorem kind?_eq_none_of_aside {b : Key Batch} {o : Occurrence} (h : o.batch? ≠ some b) :
    o.kind? b = none := by
  cases o <;> simp_all [kind?, batch?]

theorem kind?_eq_none_of_unstepped {b : Key Batch} {o : Occurrence} (h : ¬ o.StepOf b) :
    o.kind? b = none := by
  cases o <;> simp_all [kind?, StepOf, endOf?]

end Occurrence

/-! ## Every item once -/

/-- Unless it is taken out, whatever is closed is destroyed. -/
theorem World.closed_eq_tally {w : World} {i : Item} (hi : ¬ w.TakenOut i) :
    w.closed i = w.tally (Occurrence.destroys i) := by
  refine List.countP_congr fun m hm => ?_
  have htaken : ∀ b n, i = .data b n → m.occurrence ≠ .dataTaken b n := by
    rintro b n rfl ho
    exact hi ⟨m, hm, ho⟩
  cases i <;> cases ho : m.occurrence <;>
    simp_all [Occurrence.closed?, Occurrence.destroys]

theorem State.attached_handler_iff {s : State} {b : Key Batch} {n : Nat} :
    s.attached (.handler b n) ≠ 0 ↔ (s.batches.get b).handler.map (·.serial) = some n := by
  simp [attached, Batch.items, List.count_eq_zero]

theorem State.attached_data_iff {s : State} {b : Key Batch} {n : Nat} :
    s.attached (.data b n) ≠ 0 ↔ (s.batches.get b).data.map (·.serial) = some n := by
  simp [attached, Batch.items, List.count_eq_zero]

theorem State.attached_le_one (s : State) (i : Item) : s.attached i ≤ 1 := by
  have hitems : ∀ (b : Key Batch) (batch : Batch), (batch.items b).Nodup := by
    intro b batch
    cases hhandler : batch.handler <;> cases hdata : batch.data <;>
      simp [Batch.items, hhandler, hdata]
  cases i with
  | reference e => exact Nat.zero_le _
  | handler b n | data b n => exact List.nodup_iff_count_le_one.mp (hitems _ _) _

/-- What is attached to a batch at first or meanwhile, and to none at last, was destroyed exactly
once meanwhile, unless it was taken out. -/
theorem Moves.destroyed_once {hands : Hands} {w w' : World} {all : List Occurrence} {i : Item}
    (h : Moves hands [] [] w w') (hall : w.Trace all w') (hw : w.state.Sound)
    (honce : w.BegunOnce)
    (hattached : w.state.attached i ≠ 0 ∨ ∃ o ∈ all, o.begun? = some i)
    (hgone : w'.state.attached i = 0) (htaken : ¬ w'.TakenOut i) :
    all.countP (Occurrence.destroys i) = 1 := by
  have hbefore : ¬ w.TakenOut i := fun h' => htaken (h'.of_adds h.changes.adds)
  have hbalance := h.balance i htaken
  have hspare : ∀ s : State, s.spareOf i = 0 := by
    intro s
    cases i with
    | reference e =>
        rcases hattached with hattached | ⟨o, -, ho⟩
        · exact absurd rfl hattached
        · cases o <;> cases ho
    | handler | data => rfl
  have hdestroyed := hall.tally (Occurrence.destroys i)
  have hbegun : w'.begun i = w.begun i + all.countP fun o => o.begun? = some i := hall.tally _
  -- Either it is there at first, or it comes into being meanwhile, but not both.
  have hone : w.state.attached i + all.countP (fun o => o.begun? = some i) = 1 := by
    by_cases hold : w.state.attached i = 0
    · obtain ⟨o, ho, hi⟩ := hattached.resolve_left (absurd hold)
      have hpos : 0 < all.countP fun o => o.begun? = some i :=
        List.countP_pos_iff.mpr ⟨o, ho, by simpa using hi⟩
      have hle := (h.changes.begunOnce honce).once i
      omega
    · have hsame := h.changes.begun_eq (hw.numbered hold)
      have hle := w.state.attached_le_one i
      omega
  simp only [World.afloat, hspare, hgone, World.closed_eq_tally htaken,
    World.closed_eq_tally hbefore, List.count_nil] at hbalance
  omega

/-! ## Every step once -/

namespace Batch

variable {play : Player} {hands : Hands} {w w' : World} {b : Key Batch}

theorem kinds_aside {nested : List Occurrence} (h : AsideOf b nested) :
    nested.filterMap (Occurrence.kind? b) = [] :=
  List.filterMap_eq_nil_iff.mpr fun o ho => Occurrence.kind?_eq_none_of_aside (h o ho)

/-- Before the release only the handler is invoked. -/
theorem kinds_opening {ending : Ending} {bus : Key Bus} {t : Transfer} {met : Encounter}
    (haside : AsideOf b (met.inReset ++ met.inHandler))
    (hinvokes : ending.Invokes play b w met.invoked) :
    (ending.opening b bus t met).filterMap (Occurrence.kind? b) =
      (met.invoked.map fun _ => EndKind.invoked).toList := by
  have hreset : met.inReset.filterMap (Occurrence.kind? b) = [] :=
    kinds_aside fun o ho => haside o (List.mem_append_left _ ho)
  have hhandler : met.inHandler.filterMap (Occurrence.kind? b) = [] :=
    kinds_aside fun o ho => haside o (List.mem_append_right _ ho)
  have hresetting : ∀ t, (resetting b bus t met.inReset met.failure).filterMap
      (Occurrence.kind? b) = [] := by
    intro t
    unfold resetting
    split
    · cases met.failure <;>
        simp only [List.filterMap_cons, List.filterMap_append, hreset, Occurrence.kind?,
          Option.map_none, Option.map_some, Option.toList_none, Option.toList_some,
          List.filterMap_nil, List.append_nil]
    · rfl
  have hdelivering : ∀ t, (delivering b t met.inHandler met.complaint met.invoked).filterMap
      (Occurrence.kind? b) = (met.invoked.map fun _ => EndKind.invoked).toList := by
    intro t
    cases met.invoked with
    | none => rfl
    | some handler =>
        cases met.complaint <;>
          simp [delivering, Occurrence.kind?, Handler.destroyed, hhandler]
  unfold Ending.opening
  split
  · simp only [completing, List.filterMap_cons, List.filterMap_append, hresetting, hdelivering,
      Occurrence.kind?, List.nil_append]
  · next hfinishes =>
      rw [hinvokes.2 fun hinterrupted => hfinishes hinterrupted.1, if_neg hfinishes]
      rfl

/-- What a batch still owns goes away without any step that counts. -/
theorem kinds_shedding {nested : List Occurrence} {x? : Option Belonging}
    (haside : AsideOf b nested) :
    (shedding nested (x?.map (·.destroyed b))).filterMap (Occurrence.kind? b) = [] := by
  cases x? with
  | none => rfl
  | some x =>
      have hlast : (x.destroyed b).kind? b = none := by
        cases x with
        | handler handler | data a => rfl
      simp [shedding, kinds_aside haside, hlast]

/-- How an end leaves a batch, whether it was interrupted or not.  The steps that count were made
once and in order.  Only a bus that gives up before keeps a batch that finishes from invoking its
handler, and only one that gives up when the last reference on its endpoint goes away keeps the
bus from being told of the batch.  When it is told, the batch has lost its endpoint, and its
buffer if the handler was invoked.  All that was attached to the batch, before or meanwhile, was
destroyed once, unless it was taken out. -/
inductive TornDown (play : Player) (ending : Ending) (b : Key Batch) (w w' : World) : Prop where
  | intro {e : Key Endpoint} {invoked : Option Handler} {all opening : List Occurrence}
      {told : List EndKind} {w₁ w₂ : World}
      (he : (w.state.batches.get b).endpoint = some e)
      (hall : w.Trace all w')
      (hkinds : all.filterMap (Occurrence.kind? b) =
        (invoked.map fun _ => EndKind.invoked).toList ++ .givenUp :: told)
      (hinvokes : ending.Invokes play b w invoked)
      (hopening : w.Trace opening w₁)
      (hloses : (givenUp b e w₁).Loses e w₂)
      (hlater : w₂.history <:+ w'.history)
      (hskipped : (Endpoint.release play e).Faults (givenUp b e w₁) →
        told = [] ∧ (w₁.state.endpoints.get e).references = 1)
      (htold : ¬ (Endpoint.release play e).Faults (givenUp b e w₁) →
        told = [.told] ∧ ∃ (s : State) (earlier : List Moment),
          ⟨.batchFarewell (w.state.busOf e) b, s⟩ :: earlier <:+ w'.history ∧
            w₂.history <:+ earlier ∧ (s.batches.get b).endpoint = none ∧
              (invoked.isSome → (s.transferOf b).buffer = []))
      (hhandler : ∀ n, ((w.state.batches.get b).handler.map (·.serial) = some n ∨
        .handlerAttached b n ∈ all) → all.countP (Occurrence.destroys (.handler b n)) = 1)
      (hdata : ∀ n, ((w.state.batches.get b).data.map (·.serial) = some n ∨
        .dataAttached b n ∈ all) → ¬ w'.TakenOut (.data b n) →
          all.countP (Occurrence.destroys (.data b n)) = 1)
      (hkept : ∀ a, (w.state.batches.get b).data = some a → ¬ w.TakenOut (.data b a.serial))
      (hempty : (w'.state.batches.get b).endpoint = none ∧
        (w'.state.batches.get b).handler = none ∧ (w'.state.batches.get b).data = none) :
      TornDown play ending b w w'

theorem Course.tornDown {ending : Ending} {r : Except Fault Unit}
    (h : Course play hands b (ending.Begins play hands b w) r w') (hw : w.Ready hands)
    (hb : hands.MayEnd b) (hloose : w.Loose b)
    (hlive : (w.state.batches.get b).endpoint.isSome) (htaken : w.TakenAway)
    (honce : w.BegunOnce) :
    TornDown play ending b w w' := by
  obtain ⟨e, he⟩ := Option.isSome_iff_exists.mp hlive
  have hmoves := h.moves hw hb hloose
  obtain @⟨r₁, r₂, r₃, r₄, w₁, w₃, w₄, w₅, hbegin, hrelease, hhandler, hdata⟩ := h
  obtain ⟨hbefore, hendpoint, hloose₁⟩ := hbegin.moves hw.sound hb hloose
  obtain ⟨met, haside, hopening, hinvokes, hbuffer⟩ := hbegin.trace hloose he
  have hbus : w₁.state.busOf e = w.state.busOf e :=
    (hbefore.changes.busOf_eq (hw.sound.index_lt_of_endpoint he)).1
  obtain ⟨w₂, nested, farewell, hloses, hnested, hreleased, hlater, hskipped, htold⟩ :=
    hrelease.trace hloose₁ (hendpoint.trans he)
  obtain ⟨hnone, hloose₃⟩ := hrelease.rest hloose₁
  obtain ⟨inHandler, hinHandler, hshed⟩ := hhandler.trace hloose₃
  obtain ⟨hsame, hloose₄⟩ := hhandler.rest_handler hloose₃
  obtain ⟨inData, hinData, hshed'⟩ := hdata.trace hloose₄
  have hgiven := (hopening.trans (World.Trace.alter w₁ (·.detachEndpoint b))).around hreleased
  have hall := ((hgiven.trans hshed).trans hshed').note (.batchEnded b)
  have hleft : w₅.state.batches.get b =
      { w₃.state.batches.get b with handler := none, data := none } := by
    rw [(hdata.rest_data hloose₄).1, hsame]
  have hlast : w₃.history <:+ (w₅.note (.batchEnded b)).history :=
    (hshed.suffix.trans hshed'.suffix).trans (List.suffix_cons _ _)
  refine @TornDown.intro play ending b w _ e met.invoked _ _
    (farewell.filterMap (Occurrence.kind? b)) w₁ w₂ he hall ?_ hinvokes hopening hloses
    (hlater.trans hlast) ?_ ?_ ?_ ?_ ?_ ?_
  · simp only [List.filterMap_append, List.filterMap_cons, List.filterMap_nil,
      kinds_opening haside hinvokes, kinds_aside hnested, kinds_shedding hinHandler,
      kinds_shedding hinData, Occurrence.kind?, reduceIte, List.append_nil,
      List.nil_append]
  · intro hfaults
    obtain ⟨rfl, hone⟩ := hskipped hfaults
    exact ⟨rfl, hone⟩
  · intro hreturns
    obtain ⟨meanwhile, reply, s, earlier, hsteps, rfl, hs, hsuffix, hafter⟩ := htold hreturns
    rw [hbus] at hsuffix
    refine ⟨?_, s, earlier, hsuffix.trans hlast, hafter, congrArg Batch.endpoint hs, fun h => ?_⟩
    · have hmeanwhile : meanwhile.filterMap (Occurrence.kind? b) = [] :=
        List.filterMap_eq_nil_iff.mpr fun o ho =>
          Occurrence.kind?_eq_none_of_unstepped (hsteps o ho)
      cases reply <;>
        simp only [List.filterMap_cons, List.filterMap_append, List.filterMap_nil, hmeanwhile,
          Occurrence.kind?, reduceIte, Option.map_none, Option.map_some, Option.toList_none,
          Option.toList_some, List.append_nil]
    · rw [State.transferOf, hs]
      exact hbuffer h
  · intro n hn
    refine hmoves.destroyed_once hall hw.sound honce ?_ ?_ id
    · exact hn.imp State.attached_handler_iff.mpr fun hmem => ⟨_, hmem, rfl⟩
    · simp [State.attached, Batch.items, hleft]
  · intro n hn hout
    refine hmoves.destroyed_once hall hw.sound honce ?_ ?_ hout
    · exact hn.imp State.attached_data_iff.mpr fun hmem => ⟨_, hmem, rfl⟩
    · simp [State.attached, Batch.items, hleft]
  · intro a ha hout
    exact (htaken b a.serial hout).2 a ha rfl
  · rw [World.note_state, hleft]
    exact ⟨hnone, rfl, rfl⟩

end Batch

namespace Session

variable {w : World}

/-- However user code interrupts the end of a batch, the batch is torn down, no operation is left
with a reference, what others can use is as user code left it, and all of it can be used. -/
theorem Reachable.torn_down (h : Reachable w) (name : String) {b : Key Batch}
    (hfind : w.state.directory.batches.find? name = some b) (limit : Nat)
    (ending : Batch.Ending) :
    Ensures (endBatch name fun b => ending.run (player limit) b) w fun r w' =>
      (∀ fault, r = .error fault → fault.Raised) ∧
        Batch.TornDown (player limit) ending b (w.unname name) w' ∧
        (∀ e, w'.state.spare e = w.state.spare e) ∧
        Relation.ReflTransGen (Batch.EndStep (player limit) b) (w.unname name) w' ∧
        (∀ t, (w'.state.tables.get t).lock = .free) ∧
        (∀ q, (w'.state.queues.get q).lock = .free) ∧
        ∀ limit command, Ensures (carryOut (player limit) none command) w' fun r _ =>
          Allowed Fault.External r := by
  obtain ⟨hunname, hown⟩ := h.own_unnamed hfind
  have hready := hunname.ready h.ready
  have hchanges : Changes Hands.empty World.empty (w.unname name) :=
    h.changes.trans hunname.changes
  have htaken : (w.unname name).TakenAway := hchanges.takenAway
  have honce : (w.unname name).BegunOnce := hchanges.begunOnce begunOnce_empty
  rw [ensures_endBatch hfind]
  apply Ensures.mono ((Batch.ensures_ending (player_fair limit) hready hown.loose hown.mayEnd
    ending).and (ending.follows (w.unname name)))
  intro r w' hr
  obtain ⟨hcourse, hfollows⟩ := hr
  have hmoves := hcourse.moves hready hown.mayEnd hown.loose
  have hready' := hmoves.ready hready
  refine ⟨?_, hcourse.tornDown hready hown.mayEnd hown.loose hown.endpoint htaken honce, ?_,
    hfollows, hready'.sound.tablesFree, hready'.sound.queuesFree, ?_⟩
  · intro fault hfault
    have hallowed := hcourse.allowed hown.endpoint
    cases r with
    | ok _ => cases hfault
    | error fault' =>
        obtain rfl := Except.error.inj hfault
        exact hallowed
  · intro e
    have hspare := (hunname.trans hmoves).spare e
    simpa only [List.append_nil, List.count_nil, Nat.add_zero] using hspare
  · intro limit command
    have hnone : ∀ b, (none : Option (Key Batch)) = some b → Hands.empty.Lent b :=
      by simp
    exact Ensures.mono (carryOut_obeys (player_fair limit) hready' hnone command)
      fun r w'' hr => hr.allowed

/-- The handler of a batch gives up while it does its work. -/
theorem torn_down_by_handler :
    ∃ w, Reachable w ∧ w.state.directory.batches.find? "transfer" = some ⟨0⟩ ∧
      (endBatch "transfer" (Batch.Ending.finish.run (player 1))).Faults w ∧
      Batch.TornDown (player 1) .finish ⟨0⟩ (w.unname "transfer")
        ((endBatch "transfer" (Batch.Ending.finish.run (player 1))).worldAfter w) := by
  have hreachable : Reachable (after 1
      [.addBus "hub" (BusPlan.bare Script), .addEndpoint "hub" default "pipe",
        .newBatch "pipe" "transfer",
        .onComplete "transfer" ⟨"lost", some [.raise "lost"], none, [], false⟩]) :=
    .idle (idle_after 1 _)
  refine ⟨_, hreachable, by decide, by decide, ?_⟩
  exact Ensures.worldAfter (Ensures.mono
    (hreachable.torn_down "transfer" (b := ⟨0⟩) (by decide) 1 .finish) fun _ _ h => h.2.1)

end Session

end UsbTransfer
