import UsbTransfer.Proofs.LifecycleSteps
import UsbTransfer.Proofs.Walks.Library

/-!
# The library beside batches

Endpoints, tables, queues and buses use no batches, provided that the player uses none but the one
at hand.  What a table takes or gives away, and the call of a bus, are steps in their lives; all the
rest leaves tables, batches and plans alone.
-/

namespace UsbTransfer

variable {own : Option (Key Batch)} {A : Repertoire} {P : ToggleEvent → Prop} {play : Player}
  {w w' : World}

/-! ## Changes that are calm -/

namespace State.Calm

variable {s s' : State}

/-- Tables, batches and buses are not changed. -/
theorem of_same (htables : s'.tables = s.tables) (hbatches : s'.batches = s.batches)
    (hbuses : s'.buses = s.buses) (hnames : s'.directory.batches = s.directory.batches)
    (hserial : s.serial ≤ s'.serial) :
    s.Calm s' where
  slots := fun t => by rw [htables]
  handler := fun b => by rw [hbatches]
  endpoint := fun b => by rw [hbatches]
  size := by rw [hbatches]
  names := by simp [hnames]
  plan := fun bus _ => by rw [hbuses]
  buses := Nat.le_of_eq (by rw [hbuses])
  serial := hserial

theorem of_aside (h : s.Aside s') : s.Calm s' where
  slots := h.slots
  handler := fun b => by rw [h.batches]
  endpoint := fun b => by rw [h.batches]
  size := by rw [h.batches]
  names := by simp [h.batchNames]
  plan := fun bus _ => by rw [h.buses]
  buses := Nat.le_of_eq (by rw [h.buses])
  serial := h.serial

/-- One more table is there, or one more bus. -/
theorem of_more (hslots : ∀ t, (s'.tables.get t).slots = (s.tables.get t).slots)
    (hbatches : s'.batches = s.batches) (hnames : s'.directory.batches = s.directory.batches)
    (hplan : ∀ bus : Key Bus, bus.index < s.buses.size →
      (s'.buses.get bus).plan = (s.buses.get bus).plan)
    (hbuses : s.buses.size ≤ s'.buses.size) (hserial : s.serial ≤ s'.serial) :
    s.Calm s' where
  slots := hslots
  handler := fun b => by rw [hbatches]
  endpoint := fun b => by rw [hbatches]
  size := by rw [hbatches]
  names := by simp [hnames]
  plan := hplan
  buses := hbuses
  serial := hserial

end State.Calm

theorem Occurrence.Incidental.mere {o : Occurrence} (h : o.Incidental) : o.Mere := by
  cases o <;> trivial

/-! ## The steps of the library -/

namespace World.UsesOnlyIfTame

/-- Batches and their names are not changed. -/
theorem alter {f : State → State} (hcalm : w.state.Calm (f w.state))
    (hbatches : (f w.state).batches = w.state.batches)
    (hnames : (f w.state).directory.batches = w.state.directory.batches) :
    UsesOnlyIfTame own w (w.alter f) :=
  fun hw => .of_step (.alter hcalm) hw hbatches hnames (.of_same rfl)

theorem aside {f : State → State} (htables : (f w.state).tables = w.state.tables)
    (hbatches : (f w.state).batches = w.state.batches) (hbuses : (f w.state).buses = w.state.buses)
    (hnames : (f w.state).directory.batches = w.state.directory.batches)
    (hserial : w.state.serial ≤ (f w.state).serial) :
    UsesOnlyIfTame own w (w.alter f) :=
  .alter (.of_same htables hbatches hbuses hnames hserial) hbatches hnames

theorem note {o : Occurrence} (hmere : o.Mere) : UsesOnlyIfTame own w (w.note o) :=
  fun hw => .of_step (.note hmere) hw rfl rfl (.cons rfl hmere.handled?)

theorem aside_noted {f : State → State} {o : Occurrence} (hmere : o.Mere)
    (htables : (f w.state).tables = w.state.tables)
    (hbatches : (f w.state).batches = w.state.batches) (hbuses : (f w.state).buses = w.state.buses)
    (hnames : (f w.state).directory.batches = w.state.directory.batches)
    (hserial : w.state.serial ≤ (f w.state).serial) :
    Relation.ReflTransGen (UsesOnlyIfTame own) w ((w.alter f).note o) :=
  .head (.aside htables hbatches hbuses hnames hserial) (.single (.note hmere))

theorem passesQueues : PassesQueues (UsesOnlyIfTame own) where
  alter := fun h =>
    .aside (by rw [h]) (by rw [h]) (by rw [h]) (by rw [h]) (Nat.le_of_eq (by rw [h]))
  pushed := fun _ _ => .note trivial
  woken := fun _ _ => .note trivial
  handedOut := fun _ _ => .note trivial

theorem of_libraryStep (h : LibraryStep A P w w') :
    Relation.ReflTransGen (UsesOnlyIfTame own) w w' := by
  cases h with
  | aside haside =>
      exact .single (.alter (.of_aside haside) haside.batches haside.batchNames)
  | note hincidental => exact .single (.note hincidental.mere)
  | createEndpoint | setToggle | advanceToggle =>
      exact aside_noted trivial rfl rfl rfl rfl (Nat.le_refl _)
  | resetToggles =>
      refine .tail (steps_resetEach (fun _ _ => ?_) _) (.note trivial)
      exact aside_noted trivial rfl rfl rfl rfl (Nat.le_refl _)
  | call hasked hother =>
      exact .single fun hw => .of_call hasked (fun b h => absurd h (hother b)) hw
  | addBus name =>
      refine .single (.alter (.of_more (fun _ => rfl) rfl rfl (fun bus hbus => ?_) ?_ ?_) rfl rfl)
      · exact congrArg Bus.plan (w.state.buses.get_push_of_lt _ hbus)
      · simp
      · exact Nat.le_refl _
  | addTable =>
      refine .single (.alter (.of_more (fun t => ?_) rfl rfl (fun _ _ => rfl) ?_ ?_) rfl rfl)
      · -- a table that does not exist yet is blank, and so is a new one
        rw [Arena.get_push]
        split
        · next heq => rw [heq, Arena.get_nextKey]
        · rfl
      · exact Nat.le_refl _
      · exact Nat.le_refl _
  | install t e => exact .single fun hw => .of_step (.install t e) hw rfl rfl (.cons rfl rfl)
  | uninstall target hslot =>
      refine .single fun hw => .of_step (.uninstall target hslot) hw ?_ ?_ (.cons rfl rfl) <;>
        obtain ⟨slots, -, rfl⟩ := State.uninstall?_eq_some hslot <;> rfl
  | uninstallDevice count hgives =>
      obtain ⟨hleft, hothers⟩ := State.slots_giveAway hgives
      refine .single fun hw => .of_step (.uninstallDevice count ?_ hothers rfl rfl rfl rfl ?_) hw
        rfl rfl (.cons rfl rfl) <;>
        rw [World.note_state, hleft]
      · refine (Slots.Gives.values_filter hgives).2.trans (List.Perm.of_eq ?_)
        exact List.filter_congr fun e _ => by simp
      · exact hgives.proper
  | giveUpTable t => exact .single fun hw => .of_step (.giveUpTable t) hw rfl rfl (.cons rfl rfl)
  | addQueue | race | addWaker => exact .single (.aside rfl rfl rfl rfl (Nat.le_refl _))
  | arrive q c => exact passesQueues.arrived q c
  | hand => exact passesQueues.handed _ _ _
  | wait => exact aside_noted trivial rfl rfl rfl rfl (Nat.le_refl _)

end World.UsesOnlyIfTame

/-- The library uses no batch, whoever has one in hands. -/
theorem Player.UsesOnlyAtHand.walk (hplay : play.UsesOnlyAtHand) :
    LibraryWalk (World.UsesOnlyIfTame own) .all AnyToggleEvent play where
  step := World.UsesOnlyIfTame.of_libraryStep
  known := fun h w => h w (Repertoire.knows_all w.state)
  run := fun _ => (hplay.run _).beside

end UsbTransfer
