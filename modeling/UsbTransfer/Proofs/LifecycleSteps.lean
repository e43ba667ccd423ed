import UsbTransfer.Proofs.Frames
import UsbTransfer.Proofs.LibrarySteps

/-!
# Steps in the lives of batches and tables

Another reading of what an operation does, for all that concerns the contents of tables, the
handlers and the endpoints of batches, and the plans of buses.  A step is what is done at once: a
table takes an endpoint and records that, a batch exchanges its handler and records that, a bus is
called and a behaviour of it used up.  Nobody else gets control in the middle of a step.

Besides that, batches are looked after.  One that has no name belongs to an operation in progress,
or it ended with all it owned, and then nobody touches it again.  An operation that uses a batch
leaves it on its endpoint, with the handler that it has by the record.
-/

namespace UsbTransfer

open Run

namespace Occurrence

/-- The batch that comes into being or ends, or whose handler comes or goes. -/
def handled? : Occurrence → Option (Key Batch)
  | .batchBuilt b _ | .batchEnded b | .handlerAttached b _ | .handlerInvoked b _ _ _
  | .handlerDestroyed b _ _ => some b
  | _ => none

/-- The occurrence is not about the contents of a table, the handler, the endpoint or the end of a
batch, or the call of a bus. -/
def Mere : Occurrence → Prop
  | .registered _ _ | .unregistered _ _ _ | .deviceUnregistered _ _ _ | .tableGivenUp _
  | .batchBuilt _ _ | .endpointGivenUp _ _ | .batchEnded _ | .handlerAttached _ _
  | .handlerInvoked _ _ _ _ | .handlerDestroyed _ _ _ | .batchRequested _ _ | .batchFarewell _ _
  | .resetRequested _ _ _ _ | .endpointFarewell _ _ => False
  | _ => True

theorem Mere.handled? {o : Occurrence} (h : o.Mere) : o.handled? = none := by
  cases o <;> first | rfl | exact h.elim

theorem handled?_of_asked {o : Occurrence} {bus : Key Bus} (h : o.asked? = some bus) :
    o.handled? = none := by
  cases o <;> first | rfl | cases h

end Occurrence

/-- The number of the handler that a batch has by the record: the last one that was given to it,
unless that was invoked. -/
def Batch.holds (b : Key Batch) : List Moment → Option Nat
  | [] => none
  | m :: earlier =>
      match m.occurrence with
      | .batchBuilt b' _ => if b' = b then none else holds b earlier
      | .handlerAttached b' n => if b' = b then some n else holds b earlier
      | .handlerInvoked b' _ _ _ => if b' = b then none else holds b earlier
      | _ => holds b earlier

theorem Batch.holds_cons_of_ne {b : Key Batch} {m : Moment} (h : m.occurrence.handled? ≠ some b)
    (earlier : List Moment) :
    holds b (m :: earlier) = holds b earlier := by
  cases ho : m.occurrence <;> simp_all [holds, Occurrence.handled?]

namespace World

/-- Handlers of batches have got their numbers. -/
def Numbers (w : World) : Prop :=
  ∀ b handler, (w.state.batches.get b).handler = some handler → handler.serial < w.state.serial

/-- A batch gave up its reference on an endpoint of the bus. -/
def Left (w : World) (b : Key Batch) (bus : Key Bus) : Prop :=
  ∃ m ∈ w.history, ∃ e, m.occurrence = .endpointGivenUp b e ∧ m.state.busOf e = bus

/-- Nothing of the kind was recorded. -/
def Without (P : Occurrence → Prop) (w : World) : Prop :=
  ∀ m ∈ w.history, ¬ P m.occurrence

/-- The batch did not begin to end by invoking its handler. -/
abbrev Unspent (w : World) (b : Key Batch) : Prop :=
  w.Without fun o => ∃ n name? c, o = .handlerInvoked b n name? c

/-- The end of the batch was not recorded. -/
abbrev Unended (w : World) (b : Key Batch) : Prop :=
  w.Without fun o => o = .batchEnded b

end World

/-- Tables have their endpoints, batches their handlers and endpoints, and buses their plans, and
no batch gets a name. -/
structure State.Calm (s s' : State) : Prop where
  slots : ∀ t, (s'.tables.get t).slots = (s.tables.get t).slots
  handler : ∀ b, (s'.batches.get b).handler = (s.batches.get b).handler
  endpoint : ∀ b, (s'.batches.get b).endpoint = (s.batches.get b).endpoint
  size : s'.batches.size = s.batches.size
  names : ∀ b ∈ s'.directory.batches.values, b ∈ s.directory.batches.values
  plan : ∀ bus : Key Bus, bus.index < s.buses.size →
    (s'.buses.get bus).plan = (s.buses.get bus).plan
  buses : s.buses.size ≤ s'.buses.size
  serial : s.serial ≤ s'.serial

/-- A name stands for a batch. -/
def State.nameBatch (s : State) (name : String) (b : Key Batch) : State :=
  s.setDirectory fun d => { d with batches := d.batches.insert name b }

/-- What is done at once. -/
inductive LifecycleStep (w : World) : World → Prop where
  | alter {f : State → State} (hcalm : w.state.Calm (f w.state)) : LifecycleStep w (w.alter f)
  | note {o : Occurrence} (hmere : o.Mere) : LifecycleStep w (w.note o)
  /-- A bus is called, and the behaviour for the call is used up. -/
  | call {bus : Key Bus} {o : Occurrence} (hasked : o.asked? = some bus)
      (hleft : ∀ b, o = .batchFarewell bus b → w.Left b bus) :
      LifecycleStep w (w.called bus o)
  | name (name : String) {b : Key Batch} (hunspent : w.Unspent b) :
      LifecycleStep w (w.alter (·.nameBatch name b))
  | build (e : Key Endpoint) :
      LifecycleStep w ((w.alter (·.addBatch e)).note (.batchBuilt w.state.batches.nextKey e))
  | giveUp {b : Key Batch} {e : Key Endpoint} (he : (w.state.batches.get b).endpoint = some e) :
      LifecycleStep w ((w.alter (·.detachEndpoint b)).note (.endpointGivenUp b e))
  /-- A handler takes the place of the one that is there. -/
  | attach {b : Key Batch} (action : HandlerAction) (captured : List (Key Endpoint))
      (noisy : Bool) (hb : b.index < w.state.batches.size) :
      LifecycleStep w
        ((w.alter fun s => (s.detachHandler b).attachHandler b action captured noisy).note
          (.handlerAttached b w.state.serial))
  /-- The handler of a batch that finishes leaves it and gets the completion. -/
  | invoke {b : Key Batch} {handler : Handler} (t : Transfer) (c : Completion)
      (hhandler : (w.state.batches.get b).handler = some handler)
      (hnamed : b ∉ w.state.directory.batches.values)
      (hfinishing : ∃ m ∈ w.history, m.occurrence = .finishing b) :
      LifecycleStep w
        ((w.alter fun s => (s.detachHandler b).setTransfer b t).note
          (.handlerInvoked b handler.serial handler.name? c))
  /-- A handler that left its batch is destroyed before the batch ends. -/
  | perish {b : Key Batch} {n : Nat} (lastWords : Option String)
      (hb : b.index < w.state.batches.size) (hunended : w.Unended b)
      (hn : n < w.state.serial)
      (hgone : (w.state.batches.get b).handler.map (·.serial) ≠ some n) :
      LifecycleStep w (w.note (.handlerDestroyed b n lastWords))
  /-- A batch without an endpoint loses its handler. -/
  | shed {b : Key Batch} (he : (w.state.batches.get b).endpoint = none) :
      LifecycleStep w (w.alter (·.detachHandler b))
  | finish {b : Key Batch} (hb : b.index < w.state.batches.size)
      (he : (w.state.batches.get b).endpoint = none) :
      LifecycleStep w (w.note (.batchEnded b))
  | install (t : Key Table) (e : Key Endpoint) :
      LifecycleStep w ((w.note (.registered t e)).alter (·.install t e))
  | uninstall {t : Key Table} {slot : Nat} {e : Key Endpoint} {s : State} (target : Target)
      (hslot : w.state.uninstall? t slot = some (e, s)) :
      LifecycleStep w ((w.note (.unregistered t target e)).alter fun _ => s)
  /-- A table gives away the endpoints of a device. -/
  | uninstallDevice {t : Key Table} {address : UInt8} (count : Nat) {s : State}
      (hvalues : (s.tables.get t).slots.values.Perm
        ((w.state.tables.get t).slots.values.filter fun e =>
          (w.state.targetOf e).address ≠ address))
      (hothers : ∀ t', t' ≠ t → (s.tables.get t').slots = (w.state.tables.get t').slots)
      (hbatches : s.batches = w.state.batches) (hbuses : s.buses = w.state.buses)
      (hdirectory : s.directory = w.state.directory) (hserial : s.serial = w.state.serial)
      (hproper : (w.state.tables.get t).slots.Proper → (s.tables.get t).slots.Proper) :
      LifecycleStep w ((w.note (.deviceUnregistered t address count)).alter fun _ => s)
  | giveUpTable (t : Key Table) :
      LifecycleStep w ((w.note (.tableGivenUp t)).alter (·.clearTable t))

/-- A sequence of such steps. -/
abbrev LifecycleSteps : World → World → Prop :=
  Relation.ReflTransGen LifecycleStep

theorem LifecycleStep.serial_le {w w' : World} (h : LifecycleStep w w') :
    w.state.serial ≤ w'.state.serial := by
  cases h with
  | alter hcalm => exact hcalm.serial
  | attach => exact Nat.le_succ _
  | uninstall target hslot =>
      obtain ⟨_, -, rfl⟩ := State.uninstall?_eq_some hslot
      exact Nat.le_refl _
  | uninstallDevice count hvalues hothers hbatches hbuses hdirectory hserial =>
      exact Nat.le_of_eq hserial.symm
  | _ => exact Nat.le_refl _

theorem LifecycleSteps.serial_le {w w' : World} (h : LifecycleSteps w w') :
    w.state.serial ≤ w'.state.serial := by
  induction h with
  | refl => exact Nat.le_refl _
  | tail _ hstep ih => exact Nat.le_trans ih hstep.serial_le

/-- A step gives no handler to a batch, unless one that gets its number then. -/
theorem LifecycleStep.handler_cases {w w' : World} (h : LifecycleStep w w') {b : Key Batch}
    {handler : Handler}
    (hhandler : (w'.state.batches.get b).handler = some handler) :
    (w.state.batches.get b).handler = some handler ∨
      w.state.serial ≤ handler.serial ∧ handler.serial < w'.state.serial := by
  have hmodified : ∀ (b' : Key Batch) (f : Batch → Batch),
      ((w.state.batches.modify b' f).get b).handler = some handler →
      ((f (w.state.batches.get b')).handler = some handler →
        (w.state.batches.get b').handler = some handler ∨
          w.state.serial ≤ handler.serial ∧ handler.serial < w'.state.serial) →
        (w.state.batches.get b).handler = some handler ∨
          w.state.serial ≤ handler.serial ∧ handler.serial < w'.state.serial := by
    intro b' f hhandler hf
    rw [Arena.get_modify] at hhandler
    split at hhandler
    · next heq =>
        rw [heq.1]
        exact hf hhandler
    · exact .inl hhandler
  cases h with
  | alter hcalm => exact .inl ((hcalm.handler b).symm.trans hhandler)
  | uninstall target hslot =>
      obtain ⟨_, -, rfl⟩ := State.uninstall?_eq_some hslot
      exact .inl hhandler
  | uninstallDevice count hvalues hothers hbatches =>
      rw [World.alter_state, hbatches] at hhandler
      exact .inl hhandler
  | build =>
      simp only [World.note_state, World.alter_state, State.addBatch, Arena.get_push] at hhandler
      split at hhandler
      · cases hhandler
      · exact .inl hhandler
  | giveUp => exact hmodified _ _ hhandler .inl
  | shed => exact hmodified _ _ hhandler (by simp)
  | invoke =>
      simp only [World.note_state, World.alter_state, State.setTransfer, State.detachHandler,
        Arena.modify_modify] at hhandler
      exact hmodified _ _ hhandler (by simp)
  | attach =>
      simp only [World.note_state, World.alter_state, State.attachHandler, State.detachHandler,
        Arena.modify_modify] at hhandler
      refine hmodified _ _ hhandler fun hnew => .inr ?_
      obtain rfl := Option.some.inj hnew
      exact ⟨Nat.le_refl _, Nat.lt_succ_self _⟩
  | _ => exact .inl hhandler

theorem LifecycleStep.numbers {w w' : World} (h : LifecycleStep w w') (hw : w.Numbers) :
    w'.Numbers := by
  intro b handler hhandler
  rcases h.handler_cases hhandler with hold | ⟨-, hnew⟩
  · exact Nat.lt_of_lt_of_le (hw b handler hold) h.serial_le
  · exact hnew

/-! ## Batches that are looked after -/

namespace World

variable {own : Option (Key Batch)} {w w' w'' : World} {b : Key Batch} {P Q : Occurrence → Prop}

theorem Adds.suffix (h : Adds P w w') : w.history <:+ w'.history :=
  let ⟨since, hsince, _⟩ := h
  ⟨since, hsince.symm⟩

theorem Adds.cons {m : Moment} (hhistory : w'.history = m :: w.history) (hm : P m.occurrence) :
    Adds P w w' :=
  ⟨[m], hhistory, by simpa using hm⟩

theorem Adds.of_same (hhistory : w'.history = w.history) : Adds P w w' :=
  ⟨[], hhistory, by simp⟩

theorem Without.of_adds (hw : w.Without P) (h : Adds Q w w') (hQ : ∀ o, Q o → ¬ P o) :
    w'.Without P := by
  obtain ⟨since, hsince, hsinceQ⟩ := h
  intro m hm
  rcases List.mem_append.mp (hsince ▸ hm) with hm | hm
  · exact hQ _ (hsinceQ m hm)
  · exact hw m hm

theorem Without.of_suffix (h : w'.Without P) (hsuffix : w.history <:+ w'.history) :
    w.Without P :=
  fun m hm => h m (hsuffix.subset hm)

/-- Nothing was done with the handler of a batch, and the batch did not end. -/
abbrev Spares (w : World) (b : Key Batch) (w' : World) : Prop :=
  Adds (fun o => o.handled? ≠ some b) w w'

namespace Spares

theorem holds_eq (h : w.Spares b w') : Batch.holds b w'.history = Batch.holds b w.history := by
  obtain ⟨since, hsince, hothers⟩ := h
  rw [hsince]
  clear hsince
  induction since with
  | nil => rfl
  | cons m since ih =>
      rw [List.cons_append, Batch.holds_cons_of_ne (hothers m List.mem_cons_self)]
      exact ih fun m hm => hothers m (List.mem_cons_of_mem _ hm)

theorem unspent (h : w.Spares b w') (hw : w.Unspent b) : w'.Unspent b := by
  refine hw.of_adds h fun o ho => ?_
  rintro ⟨n, name?, c, rfl⟩
  exact ho rfl

theorem unended (h : w.Spares b w') (hw : w.Unended b) : w'.Unended b := by
  refine hw.of_adds h fun o ho => ?_
  rintro rfl
  exact ho rfl

end Spares

/-- A batch ended, and owns nothing any more. -/
structure Ended (w : World) (b : Key Batch) : Prop where
  endpoint : (w.state.batches.get b).endpoint = none
  handler : (w.state.batches.get b).handler = none
  data : (w.state.batches.get b).data = none
  recorded : ∃ m ∈ w.history, m.occurrence = .batchEnded b

/-- A batch has no name and did not end. -/
def Pending (w : World) (b : Key Batch) : Prop :=
  w.Loose b ∧ ¬ w.Ended b

theorem Ended.of_suffix (h : w.Ended b)
    (hbatch : w'.state.batches.get b = w.state.batches.get b)
    (hsuffix : w.history <:+ w'.history) :
    w'.Ended b := by
  obtain ⟨m, hm, ho⟩ := h.recorded
  exact ⟨hbatch ▸ h.endpoint, hbatch ▸ h.handler, hbatch ▸ h.data, m, hsuffix.subset hm, ho⟩

/-- No two names stand for one batch, the batch in hands has no name, and batches with names are
there and did not begin to end; neither did the one in hands end. -/
structure Tame (own : Option (Key Batch)) (w : World) : Prop where
  nodup : w.state.directory.batches.values.Nodup
  exist : ∀ b ∈ w.state.directory.batches.values, b.index < w.state.batches.size
  loose : ∀ b, own = some b → w.Loose b
  unspent : ∀ b ∈ w.state.directory.batches.values, w.Unspent b
  unended : ∀ b, b ∈ w.state.directory.batches.values ∨ own = some b → w.Unended b
  known : ∀ m ∈ w.history, ∀ b, m.occurrence.handled? = some b → b.index < w.state.batches.size
  numbers : w.Numbers

/-- What was done meanwhile was done in such steps.  One batch at most is in hands; no other one
without a name was touched or had anything recorded about its handler, and none but the one in hands
is left without a name that did not end. -/
structure TouchesOnly (own : Option (Key Batch)) (w w' : World) : Prop where
  tame : w'.Tame own
  suffix : w.history <:+ w'.history
  steps : LifecycleSteps w w'
  secluded : ∀ b, own ≠ some b → w.Loose b →
    w'.Loose b ∧ w'.state.batches.get b = w.state.batches.get b ∧ w.Spares b w'
  pending : ∀ b, own ≠ some b → w'.Pending b → w.Pending b

/-- The batch has the handler that it has by the record. -/
def Tracks (w : World) (b : Key Batch) : Prop :=
  (w.state.batches.get b).handler.map (·.serial) = Batch.holds b w.history

theorem Tracks.of_modify {f : Batch → Batch} (hloose : w.Loose b)
    (hbatches : w'.state.batches = w.state.batches.modify b f)
    (h : (f (w.state.batches.get b)).handler.map (·.serial) = Batch.holds b w'.history) :
    w'.Tracks b := by
  unfold Tracks
  rw [hbatches, Arena.get_modify_self _ _ _ hloose.1]
  exact h

/-- Besides, the batch in hands did not begin to end: it is on its endpoint, has the handler that it
has by the record, and did not invoke one. -/
structure UsesOnly (own : Option (Key Batch)) (w w' : World) : Prop
    extends TouchesOnly own w w' where
  tracks : ∀ b, own = some b → w.Tracks b → w'.Tracks b
  unspent : ∀ b, own = some b → w.Unspent b → w'.Unspent b
  stays : ∀ b, own = some b →
    (w'.state.batches.get b).endpoint = (w.state.batches.get b).endpoint

theorem Tame.none (h : w.Tame own) : w.Tame Option.none :=
  ⟨h.nodup, h.exist, by simp, h.unspent, fun b hb => h.unended b (.inl (by simpa using hb)),
    h.known, h.numbers⟩

namespace TouchesOnly

theorem refl (h : w.Tame own) : w.TouchesOnly own w :=
  ⟨h, List.suffix_refl _, .refl, fun _ _ hloose => ⟨hloose, rfl, .refl _ _⟩,
    fun _ _ hpending => hpending⟩

/-- What has a batch in hands comes after what had it or had none. -/
theorem append {own' : Option (Key Batch)} (h : w.TouchesOnly own' w') (h' : w'.TouchesOnly own w'')
    (hown : ∀ b, own ≠ some b → own' ≠ some b) :
    w.TouchesOnly own w'' where
  tame := h'.tame
  suffix := h.suffix.trans h'.suffix
  steps := h.steps.trans h'.steps
  secluded := by
    intro b hb hloose
    obtain ⟨hloose₁, hsame, hspares⟩ := h.secluded b (hown b hb) hloose
    obtain ⟨hloose₂, hsame', hspares'⟩ := h'.secluded b hb hloose₁
    exact ⟨hloose₂, hsame'.trans hsame, hspares.trans hspares'⟩
  pending := fun b hb hpending => h.pending b (hown b hb) (h'.pending b hb hpending)

theorem trans (h : w.TouchesOnly own w') (h' : w'.TouchesOnly own w'') : w.TouchesOnly own w'' :=
  h.append h' fun _ hb => hb

/-- A batch that was not there without a name before, and lost all it owned, is no longer in hands
when it ends. -/
theorem settle (h : w.TouchesOnly (some b) w') (hb : ¬ w.Loose b)
    (hempty : (w'.note (.batchEnded b)).Ended b) :
    w.TouchesOnly none (w'.note (.batchEnded b)) := by
  have hne : ∀ b', w.Loose b' → some b ≠ some b' := by
    rintro b' hloose heq
    obtain rfl := Option.some.inj heq
    exact hb hloose
  have hloose := h.tame.loose b rfl
  have hother : ∀ b', b' ∈ w'.state.directory.batches.values →
      w'.Spares b' (w'.note (.batchEnded b)) := by
    intro b' hb'
    refine .cons rfl fun heq => ?_
    obtain rfl := Option.some.inj heq
    exact hloose.2 hb'
  refine ⟨⟨h.tame.nodup, h.tame.exist, by simp, ?_, ?_, ?_, h.tame.numbers⟩,
    h.suffix.trans (List.suffix_cons _ _), h.steps.tail (.finish hloose.1 hempty.endpoint), ?_, ?_⟩
  · exact fun b' hb' => (hother b' hb').unspent (h.tame.unspent b' hb')
  · intro b' hb'
    have hb' : b' ∈ w'.state.directory.batches.values := by simpa using hb'
    exact (hother b' hb').unended (h.tame.unended b' (.inl hb'))
  · intro m hm b' hb'
    rcases List.mem_cons.mp hm with rfl | hm
    · obtain rfl := Option.some.inj hb'
      exact hloose.1
    · exact h.tame.known m hm b' hb'
  · intro b' _ hloose'
    obtain ⟨hlater, hsame, hspares⟩ := h.secluded b' (hne b' hloose') hloose'
    exact ⟨hlater, hsame, hspares.trans (.cons rfl (hne b' hloose'))⟩
  · rintro b' - ⟨hloose', hended⟩
    have hb' : some b ≠ some b' := by
      intro heq
      obtain rfl := Option.some.inj heq
      exact hended hempty
    exact h.pending b' hb'
      ⟨hloose', fun hended' => hended (hended'.of_suffix rfl (List.suffix_cons _ _))⟩

/-- A step that leaves batches and what is recorded of their handlers alone. -/
theorem of_step (hstep : LifecycleStep w w') (hw : w.Tame own)
    (hbatches : w'.state.batches = w.state.batches)
    (hnames : w'.state.directory.batches = w.state.directory.batches)
    (hadds : Adds (fun o => o.handled? = none) w w') :
    w.TouchesOnly own w' := by
  have hloose : ∀ b, w'.Loose b ↔ w.Loose b := by
    intro b
    unfold Loose
    rw [hbatches, hnames]
  have hspares : ∀ b, w.Spares b w' := fun b => hadds.mono fun o ho => by simp [ho]
  refine ⟨⟨?_, ?_, ?_, ?_, ?_, ?_, hstep.numbers hw.numbers⟩, hadds.suffix, .single hstep, ?_, ?_⟩
  · rw [hnames]
    exact hw.nodup
  · rw [hnames, hbatches]
    exact hw.exist
  · exact fun b hb => (hloose b).mpr (hw.loose b hb)
  · rw [hnames]
    exact fun b hb => (hspares b).unspent (hw.unspent b hb)
  · rw [hnames]
    exact fun b hb => (hspares b).unended (hw.unended b hb)
  · rw [hbatches]
    obtain ⟨since, hsince, hothers⟩ := hadds
    intro m hm b hb
    rcases List.mem_append.mp (hsince ▸ hm) with hm | hm
    · exact absurd (hothers m hm ▸ hb) (by simp)
    · exact hw.known m hm b hb
  · exact fun b _ h => ⟨(hloose b).mpr h, by rw [hbatches], hspares b⟩
  · rintro b - ⟨h, hended⟩
    exact ⟨(hloose b).mp h,
      fun hended' => hended (hended'.of_suffix (by rw [hbatches]) hadds.suffix)⟩

/-- A step that changes the batch in hands alone. -/
theorem of_own {f : Batch → Batch} (hstep : LifecycleStep w w') (hw : w.Tame (some b))
    (hbatches : w'.state.batches = w.state.batches.modify b f)
    (hnames : w'.state.directory.batches = w.state.directory.batches)
    (hadds : Adds (fun o => (∀ b', o.handled? = some b' → b' = b) ∧ o ≠ .batchEnded b) w w') :
    w.TouchesOnly (some b) w' := by
  have hown := hw.loose b rfl
  have hloose : ∀ b, w'.Loose b ↔ w.Loose b := by
    intro b
    unfold Loose
    rw [hbatches, hnames, Arena.size_modify]
  have hspares : ∀ b', some b ≠ some b' → w.Spares b' w' := fun b' hb' =>
    hadds.mono fun o ho heq => hb' (congrArg some (ho.1 b' heq).symm)
  have hsame : ∀ b', some b ≠ some b' → w'.state.batches.get b' = w.state.batches.get b' := by
    intro b' hb'
    rw [hbatches]
    exact Arena.get_modify_of_ne _ _ fun heq => hb' (congrArg some heq.symm)
  have hnamed : ∀ b' ∈ w.state.directory.batches.values, some b ≠ some b' := by
    intro b' hb' heq
    obtain rfl := Option.some.inj heq
    exact hown.2 hb'
  refine ⟨⟨?_, ?_, ?_, ?_, ?_, ?_, hstep.numbers hw.numbers⟩, hadds.suffix, .single hstep, ?_, ?_⟩
  · rw [hnames]
    exact hw.nodup
  · rw [hnames, hbatches, Arena.size_modify]
    exact hw.exist
  · exact fun b hb => (hloose b).mpr (hw.loose b hb)
  · rw [hnames]
    exact fun b' hb' => (hspares b' (hnamed b' hb')).unspent (hw.unspent b' hb')
  · rw [hnames]
    rintro b' (hb' | hb')
    · exact (hspares b' (hnamed b' hb')).unended (hw.unended b' (.inl hb'))
    · obtain rfl := Option.some.inj hb'
      exact Without.of_adds (hw.unended b (.inr rfl)) hadds fun o ho => ho.2
  · rw [hbatches, Arena.size_modify]
    obtain ⟨since, hsince, hothers⟩ := hadds
    intro m hm b' hb'
    rcases List.mem_append.mp (hsince ▸ hm) with hm | hm
    · obtain rfl := (hothers m hm).1 b' hb'
      exact hown.1
    · exact hw.known m hm b' hb'
  · exact fun b' hb' h => ⟨(hloose b').mpr h, hsame b' hb', hspares b' hb'⟩
  · rintro b' hb' ⟨h, hended⟩
    exact ⟨(hloose b').mp h,
      fun hended' => hended (hended'.of_suffix (hsame b' hb') hadds.suffix)⟩

/-- Nobody need mind a batch when none is in hands. -/
theorem usesOnly (h : w.TouchesOnly none w') : w.UsesOnly none w' :=
  ⟨h, by simp, by simp, by simp⟩

/-- What is done without a batch in hands can be done beside one. -/
theorem beside (h : w.TouchesOnly none w') (hw : w.Tame own) : w.UsesOnly own w' where
  tame :=
    { h.tame with
      loose := fun b hb => (h.secluded b (by simp) (hw.loose b hb)).1
      unended := by
        rintro b (hb | hb)
        · exact h.tame.unended b (.inl hb)
        · exact (h.secluded b (by simp) (hw.loose b hb)).2.2.unended (hw.unended b (.inr hb)) }
  suffix := h.suffix
  steps := h.steps
  secluded := fun b _ => h.secluded b (by simp)
  pending := fun b _ => h.pending b (by simp)
  tracks := by
    intro b hb htracks
    obtain ⟨-, hsame, hspares⟩ := h.secluded b (by simp) (hw.loose b hb)
    unfold Tracks
    rw [hsame, hspares.holds_eq]
    exact htracks
  unspent := fun b hb => (h.secluded b (by simp) (hw.loose b hb)).2.2.unspent
  stays := fun b hb => congrArg Batch.endpoint (h.secluded b (by simp) (hw.loose b hb)).2.1

end TouchesOnly

namespace UsesOnly

theorem refl (h : w.Tame own) : w.UsesOnly own w :=
  ⟨.refl h, fun _ _ htracks => htracks, fun _ _ hunspent => hunspent, fun _ _ => rfl⟩

theorem trans (h : w.UsesOnly own w') (h' : w'.UsesOnly own w'') : w.UsesOnly own w'' :=
  ⟨h.toTouchesOnly.trans h'.toTouchesOnly,
    fun b hb htracks => h'.tracks b hb (h.tracks b hb htracks),
    fun b hb hunspent => h'.unspent b hb (h.unspent b hb hunspent),
    fun b hb => (h'.stays b hb).trans (h.stays b hb)⟩

theorem of_step (hstep : LifecycleStep w w') (hw : w.Tame own)
    (hbatches : w'.state.batches = w.state.batches)
    (hnames : w'.state.directory.batches = w.state.directory.batches)
    (hadds : Adds (fun o => o.handled? = none) w w') :
    w.UsesOnly own w' := by
  have hspares : ∀ b, w.Spares b w' := fun b => hadds.mono fun o ho => by simp [ho]
  refine ⟨.of_step hstep hw hbatches hnames hadds, fun b _ htracks => ?_,
    fun b _ => (hspares b).unspent, fun b _ => by rw [hbatches]⟩
  unfold Tracks
  rw [hbatches, (hspares b).holds_eq]
  exact htracks

/-- The call of a bus is nothing to batches. -/
theorem of_call {bus : Key Bus} {o : Occurrence} (hasked : o.asked? = some bus)
    (hleft : ∀ b, o = .batchFarewell bus b → w.Left b bus) (hw : w.Tame own) :
    w.UsesOnly own (w.called bus o) :=
  .of_step (.call hasked hleft) hw rfl rfl (.cons rfl (Occurrence.handled?_of_asked hasked))

/-- A step that uses the batch in hands. -/
theorem of_own {f : Batch → Batch} (hstep : LifecycleStep w w') (hw : w.Tame (some b))
    (hbatches : w'.state.batches = w.state.batches.modify b f)
    (hnames : w'.state.directory.batches = w.state.directory.batches)
    (hadds : Adds (fun o => (∀ b', o.handled? = some b' → b' = b) ∧ o ≠ .batchEnded b ∧
      ∀ n name? c, o ≠ .handlerInvoked b n name? c) w w')
    (hendpoint : ∀ batch, (f batch).endpoint = batch.endpoint)
    (htracks : w.Tracks b → (f (w.state.batches.get b)).handler.map (·.serial) =
      Batch.holds b w'.history) :
    w.UsesOnly (some b) w' := by
  refine ⟨.of_own hstep hw hbatches hnames (hadds.mono fun o ho => ⟨ho.1, ho.2.1⟩),
    fun b' hb' h => ?_, fun b' hb' hunspent => ?_, fun b' _ => ?_⟩
  · obtain rfl := Option.some.inj hb'
    exact .of_modify (hw.loose b rfl) hbatches (htracks h)
  · obtain rfl := Option.some.inj hb'
    refine Without.of_adds hunspent hadds fun o ho => ?_
    rintro ⟨n, name?, c, rfl⟩
    exact ho.2.2 n name? c rfl
  · rw [hbatches]
    exact w.state.batches.apply_get_modify b b' f Batch.endpoint hendpoint

end UsesOnly

end World

/-! ## Operations -/

/-- Of a world in order only the batch in hands was used. -/
def World.UsesOnlyIfTame (own : Option (Key Batch)) (w w' : World) : Prop :=
  w.Tame own → w.UsesOnly own w'

/-- Whatever its outcome is, the operation uses no batch but the one in hands. -/
abbrev Run.UsesOnly {α : Type} (own : Option (Key Batch)) (m : Run α) : Prop :=
  Follows (World.UsesOnlyIfTame own) m

/-- All scripts use no batch but the one that is at hand. -/
def Player.UsesOnlyAtHand (play : Player) : Prop :=
  ∀ atHand script, Run.UsesOnly atHand (play atHand script)

variable {α : Type} {own : Option (Key Batch)} {play : Player} {w w' : World}

theorem World.usesOnlyIfTame_of_all (h : Relation.ReflTransGen (World.UsesOnlyIfTame own) w w') :
    World.UsesOnlyIfTame own w w' := by
  intro hw
  induction h with
  | refl => exact .refl hw
  | tail _ huses ih => exact ih.trans (huses ih.tame)

namespace Run

theorem UsesOnly.ensures {m : Run α} (h : UsesOnly own m) (hw : w.Tame own) :
    Ensures m w fun _ w' => w.UsesOnly own w' :=
  Ensures.mono (h w) fun _ _ hr => World.usesOnlyIfTame_of_all hr hw

/-- What was done with the batch before goes on with an operation that uses it. -/
theorem UsesOnly.after {m : Run α} (h : UsesOnly own m) (hw : w.UsesOnly own w') :
    Ensures m w' fun _ w'' => w.UsesOnly own w'' :=
  Ensures.mono (h.ensures hw.tame) fun _ _ hr => hw.trans hr

theorem usesOnly_of_tame {m : Run α}
    (h : ∀ w, w.Tame own → Ensures m w fun _ w' => w.UsesOnly own w') :
    UsesOnly own m := by
  intro w
  by_cases hw : w.Tame own
  · exact Ensures.mono (h w hw) fun _ _ hr => .single fun _ => hr
  · exact Ensures.mono (ensures_worldAfter m w) fun _ _ _ => .single fun h => absurd h hw

theorem UsesOnly.beside {m : Run α} (h : UsesOnly none m) : UsesOnly own m :=
  usesOnly_of_tame fun _ hw => Ensures.mono (h.ensures hw.none) fun _ _ hr =>
    hr.toTouchesOnly.beside hw

end Run

theorem Player.UsesOnlyAtHand.run (hplay : play.UsesOnlyAtHand) (code : Option Script) :
    Run.UsesOnly own (play.run own code) := by
  cases code with
  | none => exact follows_pure ()
  | some script => exact hplay own script

end UsbTransfer
