import UsbTransfer.Proofs.LifecycleSteps.Sessions
import UsbTransfer.Proofs.Invocations
import UsbTransfer.Proofs.Registrations
import UsbTransfer.Proofs.Teardown

/-!
# The fates of handlers

A handler that is given to a batch is destroyed once, and before that it is invoked once or not at
all.  As long as a batch is used, it has the handler that was given to it last; the end of the batch
invokes that one or none.  Who is left when the batch was released is destroyed after its bus was
told, unless that bus gave up when the last reference on its endpoint went away with the batch.
-/

namespace UsbTransfer

open Run

namespace Occurrence

/-- The handler of the batch is invoked. -/
def invokes (b : Key Batch) (n : Nat) : Occurrence → Bool
  | .handlerInvoked b' n' _ _ => b' = b ∧ n' = n
  | _ => false

/-- The batch ended. -/
def ends (b : Key Batch) : Occurrence → Bool
  | .batchEnded b' => b' = b
  | _ => false

theorem invokes_iff {b : Key Batch} {n : Nat} {o : Occurrence} :
    o.invokes b n ↔ ∃ name? c, o = .handlerInvoked b n name? c := by
  cases o <;> simp [invokes]

theorem ends_iff {b : Key Batch} {o : Occurrence} : o.ends b ↔ o = .batchEnded b := by
  cases o <;> simp [ends]

theorem destroys_handler_iff {b : Key Batch} {n : Nat} {o : Occurrence} :
    o.destroys (.handler b n) ↔ ∃ lastWords, o = .handlerDestroyed b n lastWords := by
  cases o <;> simp [destroys]

end Occurrence

/-- What comes at one place of a list at most is there once at most. -/
theorem countP_le_one {α : Type} {p : α → Bool} {l : List α}
    (h : ∀ {x x' rest rest'}, x :: rest <:+ l → x' :: rest' <:+ l → p x → p x' →
      x :: rest = x' :: rest') :
    l.countP p ≤ 1 := by
  induction l with
  | nil => exact Nat.zero_le 1
  | cons x l ih =>
      have hlater : l <:+ x :: l := List.suffix_cons x l
      by_cases hx : p x
      · have hnone : l.countP p = 0 := by
          refine List.countP_eq_zero.mpr fun x' hx' hp => ?_
          obtain ⟨before, rest, hl⟩ := List.append_of_mem hx'
          have hsuffix : x' :: rest <:+ l := ⟨before, hl.symm⟩
          have hsame := h (List.suffix_refl _) (hsuffix.trans hlater) hx hp
          have hlength := congrArg List.length (List.cons.inj hsame).2
          have hle := hsuffix.length_le
          rw [List.length_cons] at hle
          omega
        exact Nat.le_of_eq (by rw [List.countP_cons_of_pos hx, hnone])
      · rw [List.countP_cons_of_neg hx]
        exact ih fun hm hm' => h (hm.trans hlater) (hm'.trans hlater)

namespace World

variable {w w' : World} {b : Key Batch} {n : Nat} {all all' : List Occurrence}

theorem tally_pos_iff {p : Occurrence → Bool} :
    0 < w.tally p ↔ ∃ m ∈ w.history, p m.occurrence = true :=
  List.countP_pos_iff

theorem tally_mono (h : w.history <:+ w'.history) (p : Occurrence → Bool) :
    w.tally p ≤ w'.tally p :=
  h.sublist.countP_le

theorem tally_lt {m : Moment} {earlier : List Moment} {p : Occurrence → Bool}
    (hm : m :: earlier <:+ w'.history) (hearlier : w.history <:+ earlier)
    (ho : p m.occurrence = true) :
    w.tally p < w'.tally p := by
  have hone : earlier.countP (fun m => p m.occurrence) + 1 ≤ w'.tally p := by
    rw [← List.countP_cons_of_pos (p := fun m : Moment => p m.occurrence) ho]
    exact hm.sublist.countP_le
  exact Nat.lt_of_le_of_lt hearlier.sublist.countP_le hone

/-- What is recorded between two worlds is determined by them. -/
theorem Trace.unique (h : w.Trace all w') (h' : w.Trace all' w') : all = all' := by
  obtain ⟨since, hsince, rfl⟩ := h
  obtain ⟨since', hsince', rfl⟩ := h'
  obtain rfl := List.append_cancel_right (hsince.symm.trans hsince')
  rfl

theorem Trace.of_suffix (h : w.history <:+ w'.history) : ∃ all, w.Trace all w' :=
  let ⟨since, hsince⟩ := h
  ⟨_, since, hsince.symm, rfl⟩

/-- Who is in a batch by the record was given to it meanwhile, or was in it before. -/
theorem Trace.holds_cases (h : w.Trace all w') (hn : Batch.holds b w'.history = some n) :
    .handlerAttached b n ∈ all ∨ Batch.holds b w.history = some n := by
  obtain ⟨since, hsince, rfl⟩ := h
  rw [hsince] at hn
  clear hsince
  induction since with
  | nil => exact .inr hn
  | cons m since ih =>
      have hlater : .handlerAttached b n ∈ since.reverse.map (·.occurrence) ∨
          Batch.holds b w.history = some n →
            .handlerAttached b n ∈ (m :: since).reverse.map (·.occurrence) ∨
              Batch.holds b w.history = some n := by
        refine Or.imp_left fun hmem => ?_
        rw [List.reverse_cons, List.map_append]
        exact List.mem_append_left _ hmem
      by_cases hm : m.occurrence.handled? = some b
      · cases ho : m.occurrence <;> simp_all [Batch.holds, Occurrence.handled?]
      · rw [List.cons_append, Batch.holds_cons_of_ne hm] at hn
        exact hlater (ih hn)

/-- A handler is invoked once at most. -/
theorem Chronicled.tally_invokes_le (h : w.Chronicled) (b : Key Batch) (n : Nat) :
    w.tally (Occurrence.invokes b n) ≤ 1 := by
  refine countP_le_one fun hm hm' ho ho' => ?_
  obtain ⟨_, _, ho⟩ := Occurrence.invokes_iff.mp ho
  obtain ⟨_, _, ho'⟩ := Occurrence.invokes_iff.mp ho'
  exact h.invoked_once hm hm' ho ho'

/-- The handler of a batch was not invoked. -/
theorem Chronicled.tally_invokes_eq_zero (h : w.Chronicled)
    (hn : (w.state.batches.get b).handler.map (·.serial) = some n) :
    w.tally (Occurrence.invokes b n) = 0 := by
  refine List.countP_eq_zero.mpr fun m hm ho => ?_
  obtain ⟨_, _, ho⟩ := Occurrence.invokes_iff.mp ho
  obtain ⟨later, earlier, hhistory⟩ := List.append_of_mem hm
  obtain ⟨handler, hhandler, hserial⟩ := Option.map_eq_some_iff.mp hn
  exact (h.invoked ⟨later, hhistory.symm⟩ ho).2
    ((h.now m hm).awaits (.inl ⟨handler, hhandler, hserial⟩))

/-- How handlers fare, as far as can be seen at a moment at which user code gets control. -/
structure Fated (w : World) : Prop where
  /-- None is invoked or destroyed twice. -/
  once : ∀ b n, w.tally (Occurrence.invokes b n) ≤ 1 ∧
    w.tally (Occurrence.destroys (.handler b n)) ≤ 1
  /-- A batch on its endpoint has the handler that was given to it last, unless that was invoked. -/
  held : ∀ b, (w.state.batches.get b).endpoint ≠ none →
    (w.state.batches.get b).handler.map (·.serial) = Batch.holds b w.history
  /-- A batch with a name is on its endpoint and invoked none. -/
  named : ∀ b ∈ w.state.directory.batches.values,
    (w.state.batches.get b).endpoint ≠ none ∧ ∀ n, w.tally (Occurrence.invokes b n) = 0
  /-- Who is in a batch was neither invoked nor destroyed. -/
  waiting : ∀ b n, (w.state.batches.get b).handler.map (·.serial) = some n →
    w.tally (Occurrence.invokes b n) = 0 ∧ w.tally (Occurrence.destroys (.handler b n)) = 0
  /-- Only a batch that finishes, or is aborted, invokes a handler, and none that was destroyed. -/
  finishing : ∀ m earlier, m :: earlier <:+ w.history → ∀ b n, m.occurrence.invokes b n →
    (∃ m' ∈ earlier, m'.occurrence = .finishing b) ∧
      ∀ m' ∈ earlier, ¬ m'.occurrence.destroys (.handler b n)
  /-- When a batch has ended, each handler that was ever given to it was destroyed. -/
  ended : ∀ b n, 0 < w.begun (.handler b n) → 0 < w.tally (Occurrence.ends b) →
    w.tally (Occurrence.destroys (.handler b n)) = 1

end World

/-- What becomes of the handlers of a batch when it ends.  Who is in the batch is invoked if it
finishes and its bus does not give up when it is asked to reset toggles, and nobody else is.  Who is
in it or is given to it meanwhile is destroyed once.  Who is left by the record then is destroyed
after the release of the batch. -/
inductive Batch.Disposes (play : Player) (ending : Ending) (b : Key Batch) (w w' : World) :
    Prop where
  | intro {w₁ : World} {released left : List Occurrence} {invoked : Option Handler}
      (hreleased : w.Trace released w₁) (hleft : w₁.Trace left w')
      (hinvokes : ending.Invokes play b w invoked)
      (hinvocations : invocations b (released ++ left) =
        (invoked.map fun handler => (handler.serial, handler.name?,
          (ending.final (w.state.transferOf b)).completion)).toList)
      (hdestroyed : ∀ n, ((w.state.batches.get b).handler.map (·.serial) = some n ∨
        .handlerAttached b n ∈ released ++ left) →
          (released ++ left).countP (Occurrence.destroys (.handler b n)) = 1)
      (hnone : (w₁.state.batches.get b).endpoint = none)
      (hdismissed : ∀ e, (w.state.batches.get b).endpoint = some e → w₁.Dismissed play b e)
      (hlast : ∀ n, holds b w'.history = some n →
        (w₁.state.batches.get b).handler.map (·.serial) = some n ∧
          left.countP (Occurrence.destroys (.handler b n)) = 1)

/-- What is known of the end of a batch from its course and from what was done with its handler. -/
theorem Batch.disposes_of_departs {play : Player} {ending : Ending} {b : Key Batch}
    {w w' : World} (hdeparts : w.Departs play b w') (htorn : TornDown play ending b w w')
    (hinvoked : ∃ all invoked, w.Trace all w' ∧ ending.Invokes play b w invoked ∧
      invocations b all = (invoked.map fun handler => (handler.serial, handler.name?,
        (ending.final (w.state.transferOf b)).completion)).toList)
    (htracks : w.Tracks b) :
    Disposes play ending b w w' := by
  obtain @⟨w₁, w₂, hnears, hnone, hsheds, hholds, hdestroyed, hempty⟩ := hdeparts
  obtain ⟨all, invoked, hall, hinvokes, hinvocations⟩ := hinvoked
  obtain ⟨released, hreleased⟩ := World.Trace.of_suffix hnears.suffix
  obtain ⟨left, hleft⟩ := World.Trace.of_suffix hsheds.suffix
  have hleft := hleft.note (.batchEnded b)
  have hsame : all = released ++ (left ++ [Occurrence.batchEnded b]) :=
    hall.unique (hreleased.trans hleft)
  have honce : ∀ n, ((w.state.batches.get b).handler.map (·.serial) = some n ∨
      .handlerAttached b n ∈ all) → all.countP (Occurrence.destroys (.handler b n)) = 1 := by
    cases htorn with
    | intro he hall' hkinds hinvokes hopening hloses hlater hskipped htold hhandler =>
        rw [hall.unique hall']
        exact hhandler
  refine .intro hreleased hleft hinvokes (hsame ▸ hinvocations) (hsame ▸ honce) hnone
    (fun e he => ?_) fun n hn => ?_
  · exact (hnears.dismissed e he).resolve_left (by simp [hnone])
  · have hn₁ : Batch.holds b w₁.history = some n := hholds.symm.trans hn
    have hheld := (hnears.tracks htracks).trans hn₁
    refine ⟨hheld, ?_⟩
    -- it is destroyed after the release, and only once altogether
    have hgiven : (w.state.batches.get b).handler.map (·.serial) = some n ∨
        .handlerAttached b n ∈ all := by
      rw [hsame]
      exact (hreleased.holds_cases hn₁).symm.imp htracks.trans (List.mem_append_left _)
    have hone := honce n hgiven
    rw [hsame, List.countP_append] at hone
    obtain ⟨m, earlier, lastWords, hm, hlater, ho⟩ := hdestroyed n hheld
    have hm : m :: earlier <:+ (w₂.note (.batchEnded b)).history :=
      hm.trans (List.suffix_cons _ _)
    have hmore := World.tally_lt hm hlater (Occurrence.destroys_handler_iff.mpr ⟨lastWords, ho⟩)
    have htally := hleft.tally (Occurrence.destroys (.handler b n))
    omega

namespace Session

variable {w : World}

/-- Between commands every handler that was given to a batch is in it or was destroyed. -/
theorem Idle.handler_account (h : Idle w) (b : Key Batch) (n : Nat) :
    w.begun (.handler b n) =
      w.state.attached (.handler b n) + w.tally (Occurrence.destroys (.handler b n)) := by
  have hbalance := h.moves.balance (.handler b n) id
  have hempty : World.empty.afloat (.handler b n) = 0 := rfl
  rw [hempty, World.afloat, World.closed_eq_tally id] at hbalance
  simp only [State.spareOf, List.count_nil] at hbalance
  omega

/-- Between commands a batch that ended owns no handler. -/
theorem Idle.handler_none (h : Idle w) {b : Key Batch} (hended : 0 < w.tally (Occurrence.ends b)) :
    (w.state.batches.get b).handler = none := by
  have hdocumented := (Reachable.idle h).documented
  obtain ⟨m, hm, ho⟩ := World.tally_pos_iff.mp hended
  have ho := Occurrence.ends_iff.mp ho
  have hloose : w.Loose b := by
    refine ⟨hdocumented.known m hm b (by rw [ho]; rfl), fun hnamed => ?_⟩
    have hlive := (Reachable.idle h).ready.sound.batchesLive b hnamed
    simp [hdocumented.ended m hm b ho] at hlive
  exact (h.ended hloose).handler

/-- A handler that was given to a batch is destroyed before the batch has ended. -/
theorem Reachable.destroyed_of_ended (h : Reachable w) {b : Key Batch} {n : Nat}
    (hbegun : 0 < w.begun (.handler b n)) (hended : 0 < w.tally (Occurrence.ends b)) :
    0 < w.tally (Occurrence.destroys (.handler b n)) := by
  have hlater : ∀ w₀ : World, Idle w₀ → w.history <:+ w₀.history →
      0 < w.tally (Occurrence.destroys (.handler b n)) := by
    intro w₀ h₀ hsuffix
    have hnone := h₀.handler_none (Nat.lt_of_lt_of_le hended (World.tally_mono hsuffix _))
    have haccount := h₀.handler_account b n
    have hgiven : 0 < w₀.begun (.handler b n) :=
      Nat.lt_of_lt_of_le hbegun (World.tally_mono hsuffix _)
    have hgone : w₀.state.attached (.handler b n) = 0 := by
      by_contra hheld
      have hserial := State.attached_handler_iff.mp hheld
      simp [hnone] at hserial
    obtain ⟨m, hm, hdestroyed⟩ := World.tally_pos_iff.mp
      (show 0 < w₀.tally (Occurrence.destroys (.handler b n)) by omega)
    obtain ⟨lastWords, ho⟩ := Occurrence.destroys_handler_iff.mp hdestroyed
    obtain ⟨later, earlier, hhistory⟩ := List.append_of_mem hm
    have hsplit : m :: earlier <:+ w₀.history := ⟨later, hhistory.symm⟩
    obtain ⟨m', hm', ho'⟩ := World.tally_pos_iff.mp hended
    have hafter : m' ∉ earlier := fun hmem =>
      (Reachable.idle h₀).documented.perished m earlier hsplit b n lastWords ho m' hmem
        (Occurrence.ends_iff.mp ho')
    -- so it was not destroyed later than now
    refine World.tally_pos_iff.mpr ⟨m, ?_, hdestroyed⟩
    rcases List.suffix_or_suffix_of_suffix hsplit hsuffix with hm | hw
    · exact hm.subset List.mem_cons_self
    · rcases List.suffix_cons_iff.mp hw with heq | hw
      · rw [heq]
        exact List.mem_cons_self
      · exact absurd (hw.subset hm') hafter
  cases h with
  | idle h => exact hlater w h (List.suffix_refl _)
  | amid h hm => exact hlater _ h hm

theorem Reachable.tally_destroys_le (h : Reachable w) (b : Key Batch) (n : Nat) :
    w.tally (Occurrence.destroys (.handler b n)) ≤ 1 := by
  have hlater : ∀ w₀ : World, Idle w₀ → w.history <:+ w₀.history →
      w.tally (Occurrence.destroys (.handler b n)) ≤ 1 := by
    intro w₀ h₀ hsuffix
    have honce := (h₀.moves.changes.begunOnce begunOnce_empty).once (.handler b n)
    have haccount := h₀.handler_account b n
    have hle := World.tally_mono hsuffix (Occurrence.destroys (.handler b n))
    omega
  cases h with
  | idle h => exact hlater w h (List.suffix_refl _)
  | amid h hm => exact hlater _ h hm

theorem Reachable.fated (h : Reachable w) : w.Fated where
  once := fun b n => ⟨h.changes.chronicled.tally_invokes_le b n, h.tally_destroys_le b n⟩
  held := h.documented.tracks
  named := by
    intro b hb
    refine ⟨fun hnone => ?_, fun n => List.countP_eq_zero.mpr fun m hm ho => ?_⟩
    · have hlive := h.ready.sound.batchesLive b hb
      simp [hnone] at hlive
    · obtain ⟨name?, c, ho⟩ := Occurrence.invokes_iff.mp ho
      exact h.documented.unspent b hb m hm ⟨n, name?, c, ho⟩
  waiting := by
    refine fun b n hn => ⟨h.changes.chronicled.tally_invokes_eq_zero hn, ?_⟩
    refine List.countP_eq_zero.mpr fun m hm ho => ?_
    obtain ⟨lastWords, ho⟩ := Occurrence.destroys_handler_iff.mp ho
    exact (h.documented.destroyed m hm b n lastWords ho).2 hn
  finishing := by
    intro m earlier hm b n ho
    obtain ⟨name?, c, ho⟩ := Occurrence.invokes_iff.mp ho
    obtain ⟨hfinishing, hintact⟩ := h.documented.finishing m earlier hm b n name? c ho
    refine ⟨hfinishing, fun m' hm' ho' => ?_⟩
    obtain ⟨lastWords, ho'⟩ := Occurrence.destroys_handler_iff.mp ho'
    exact hintact m' hm' lastWords ho'
  ended := fun b n hbegun hended =>
    Nat.le_antisymm (h.tally_destroys_le b n) (h.destroyed_of_ended hbegun hended)

/-- Between commands a handler that was given to a batch and not destroyed is in the batch, which
has a name. -/
theorem Idle.handler_settled (h : Idle w) {b : Key Batch} {n : Nat}
    (hbegun : 0 < w.begun (.handler b n)) :
    w.tally (Occurrence.destroys (.handler b n)) = 1 ∨
      b ∈ w.state.directory.batches.values ∧
        (w.state.batches.get b).handler.map (·.serial) = some n := by
  have honce := (h.moves.changes.begunOnce begunOnce_empty).once (.handler b n)
  have haccount := h.handler_account b n
  by_cases hgone : w.state.attached (.handler b n) = 0
  · exact .inl (by omega)
  · have hheld := State.attached_handler_iff.mp hgone
    refine .inr ⟨?_, hheld⟩
    by_contra hnamed
    obtain ⟨handler, hhandler, -⟩ := Option.map_eq_some_iff.mp hheld
    have hnone := (h.ended ⟨State.index_lt_of_handler hhandler, hnamed⟩).handler
    simp [hnone] at hhandler

/-- A handler that goes away releases what it captured, each reference once, whatever user code does
meanwhile. -/
theorem Reachable.ensures_released (h : Reachable w) {b : Key Batch} (hloose : w.Loose b)
    (handler : Handler) (hspare : ∀ e, handler.captured.count e ≤ w.state.spare e) (limit : Nat) :
    Ensures (handler.destroy (player limit) b) w fun _ w' =>
      ∀ e, w'.state.spare e + handler.captured.count e = w.state.spare e := by
  have horderly := Belonging.destroy_orderly (player_fair limit) h.ready
    List.not_mem_nil hloose (.handler handler) hspare
  refine Ensures.mono horderly fun r w' hr e => ?_
  have hspare' := hr.moves.spare e
  simpa [Belonging.captured, Belonging.item] using hspare'

/-- However user code comes to end a batch by its name, its handlers are disposed of. -/
theorem Reachable.ensures_disposes (h : Reachable w) (name : String) {b : Key Batch}
    (hfind : w.state.directory.batches.find? name = some b) (limit : Nat)
    (ending : Batch.Ending) :
    Ensures (endBatch name fun b => ending.run (player limit) b) w fun _ w' =>
      Batch.Disposes (player limit) ending b (w.unname name) w' := by
  obtain ⟨hunname, hown⟩ := h.own_unnamed hfind
  have hready := hunname.ready h.ready
  have hchanges : Changes Hands.empty World.empty (w.unname name) :=
    h.changes.trans hunname.changes
  have htame : (w.unname name).Tame (some b) := by
    have htaken := ensures_takeBatch_touchesOnly h.tame name
    rw [ensures_takeBatch_of_named hfind] at htaken
    rcases htaken with ⟨_, heq, -⟩ | ⟨b', heq, htaken, -⟩
    · cases heq
    · obtain rfl := Except.ok.inj (Except.ok.inj heq)
      exact htaken.tame
  have htracks : (w.unname name).Tracks b := by
    refine h.documented.tracks b fun hnone => ?_
    have hlive := h.ready.sound.batchesLive b (Names.mem_values_of_find? hfind)
    simp [hnone] at hlive
  rw [ensures_endBatch hfind]
  refine Ensures.mono ((Batch.ensures_ending (player_fair limit) hready hown.loose hown.mayEnd
    ending).and (ending.ensures_departs (usesOnlyAtHand_player limit) htame)) fun r w' hr => ?_
  obtain ⟨hcourse, hdeparts⟩ := hr
  refine Batch.disposes_of_departs hdeparts ?_ ?_ htracks
  · exact hcourse.tornDown hready hown.mayEnd hown.loose hown.endpoint hchanges.takenAway
      (hchanges.begunOnce begunOnce_empty)
  · exact hcourse.invocations hready.sound hown.mayEnd hown.loose hown.endpoint

/-- Every handler that is given to a batch has one fate.  Wherever user code gets control, none was
invoked or destroyed twice, a batch that is used has the one that was given to it last, and when
the batch has ended all of them were destroyed.  Between commands each is destroyed or in a batch
that has a name, and nothing that it captured is left in flight.  Whoever goes away releases what it
captured once, and the end of a batch invokes the handler that is in it or none, and destroys all
the others that it is left with after its bus was told. -/
theorem Reachable.handlers_fated (h : Reachable w) :
    w.Fated ∧
    (Idle w → w.state.inFlight = [] ∧ ∀ b n, 0 < w.begun (.handler b n) →
      w.tally (Occurrence.destroys (.handler b n)) = 1 ∨
        b ∈ w.state.directory.batches.values ∧
          (w.state.batches.get b).handler.map (·.serial) = some n) ∧
    (∀ e, (w.state.endpoints.get e).references = w.state.handlesOn e) ∧
    (∀ b (handler : Handler) limit, w.Loose b → (∀ e, handler.captured.count e ≤ w.state.spare e) →
      Ensures (handler.destroy (player limit) b) w fun _ w' =>
        ∀ e, w'.state.spare e + handler.captured.count e = w.state.spare e) ∧
    ∀ name b limit ending, w.state.directory.batches.find? name = some b →
      Ensures (endBatch name fun b => Batch.Ending.run (player limit) b ending) w fun _ w' =>
        Batch.Disposes (player limit) ending b (w.unname name) w' :=
  ⟨h.fated, fun hidle => ⟨hidle.inFlight_eq_nil, fun _ _ hbegun => hidle.handler_settled hbegun⟩,
    h.ready.sound.counted,
    fun _ handler limit hloose hspare => h.ensures_released hloose handler hspare limit,
    fun name _ limit ending hfind => h.ensures_disposes name hfind limit ending⟩

/-- A handler is replaced, and the code of the bus gives the batch another one when it is told of
the end of the batch.  The one that was replaced is destroyed once, and so is the one that came too
late. -/
theorem handlers_fated_of_late :
    ∃ w, Reachable w ∧ w.state.directory.batches.find? "transfer" = some ⟨0⟩ ∧
      (∃ w', (endBatch "transfer" (Batch.Ending.finish.run (player 2))).worldAfter w = w' ∧
        Batch.Disposes (player 2) .finish ⟨0⟩ (w.unname "transfer") w' ∧
          Batch.holds ⟨0⟩ w'.history = some 3) ∧
      (step (player 2) (.finish "transfer") w).2.tally
        (Occurrence.destroys (.handler ⟨0⟩ 1)) = 1 := by
  have hidle : Idle (after 2
      [.addBus "hub" { BusPlan.bare Script with
          batchDestroy := ⟨[⟨some [.onComplete "$" ⟨"late", none, none, [], true⟩], .done⟩]⟩ },
        .addEndpoint "hub" default "pipe", .newBatch "pipe" "transfer",
        .onComplete "transfer" ⟨"first", none, none, [], true⟩,
        .onComplete "transfer" ⟨"second", none, none, [], true⟩]) :=
    idle_after 2 _
  have hdisposes := (Reachable.idle hidle).handlers_fated.2.2.2.2 "transfer" ⟨0⟩ 2 .finish
    (by decide)
  refine ⟨_, .idle hidle, by decide, ⟨_, rfl, hdisposes.worldAfter, by decide⟩, ?_⟩
  exact (Reachable.idle (hidle.step 2 (.finish "transfer"))).handlers_fated.1.ended _ _ (by decide)
    (by decide)

/-- A bus that gives up when the last reference on its endpoint goes away with a batch is not told
of the batch, and yet the handler of the batch is destroyed. -/
theorem destroyed_untold :
    ∃ w, Reachable w ∧ w.state.directory.batches.find? "transfer" = some ⟨0⟩ ∧
      (w.state.batches.get ⟨0⟩).handler.map (·.serial) = some 1 ∧
      let w' := (endBatch "transfer" (Batch.Ending.destroy.run (player 1))).worldAfter w
      w'.tally (Occurrence.invokes ⟨0⟩ 1) = 0 ∧
        w'.tally (Occurrence.destroys (.handler ⟨0⟩ 1)) = 1 ∧
          ∀ m ∈ w'.history, m.occurrence.kind? ⟨0⟩ ≠ some .told := by
  have hreachable : Reachable (after 1
      [.addBus "hub" { BusPlan.bare Script with
          endpointDestroy := ⟨[⟨some [.raise "gone"], .done⟩]⟩ },
        .addEndpoint "hub" default "pipe", .newBatch "pipe" "transfer",
        .onComplete "transfer" ⟨"lost", none, none, [], true⟩, .releaseHandle "pipe"]) :=
    .idle (idle_after 1 _)
  exact ⟨_, hreachable, by decide, by decide, by decide, by decide, by decide⟩

end Session
end UsbTransfer
