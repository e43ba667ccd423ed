import UsbTransfer.Proofs.Operations

/-!
# Slots that are vacated

A table that loses a device gives away what is in the slots of the device, one slot after the
other.  What it gives away and what it is left with add up to what it had.
-/

namespace UsbTransfer

open Run

namespace Slots

variable {α : Type} {s s' : Slots α} {slots : List Nat} {values : List α}

/-- The values in some slots are given away, one after the other. -/
inductive Gives : Slots α → List Nat → List α → Slots α → Prop where
  | nil (s : Slots α) : Gives s [] [] s
  | cons {s s₁ s' : Slots α} {i : Nat} {slots : List Nat} {value : α} {values : List α}
      (hremove : s.remove? i = some (value, s₁)) (hrest : Gives s₁ slots values s') :
      Gives s (i :: slots) (value :: values) s'

theorem Gives.values_perm (h : Gives s slots values s') :
    s.values.Perm (values ++ s'.values) := by
  induction h with
  | nil => exact List.Perm.refl _
  | cons hremove _ ih => exact (values_perm_of_remove? hremove).trans (ih.cons _)

theorem Gives.proper (h : Gives s slots values s') (hs : s.Proper) : s'.Proper := by
  induction h with
  | nil => exact hs
  | cons hremove _ ih => exact ih (hs.remove hremove)

/-- What is left was there before, in a slot that was not vacated. -/
theorem Gives.get? (h : Gives s slots values s') {i : Nat} {value : α}
    (hi : s'.get? i = some value) :
    s.get? i = some value ∧ i ∉ slots := by
  induction h with
  | nil => exact ⟨hi, List.not_mem_nil⟩
  | cons hremove _ ih =>
      obtain ⟨hget, hrest⟩ := ih hi
      obtain ⟨hold, hne⟩ := get?_of_get?_remove? hremove hget
      exact ⟨hold, fun hmem => (List.mem_cons.mp hmem).elim (fun heq => hne heq.symm) hrest⟩

/-- What is given away was in the slots, in their order. -/
theorem Gives.map_get? (h : Gives s slots values s') (hnodup : slots.Nodup) :
    slots.map s.get? = values.map some := by
  induction h with
  | nil => rfl
  | @cons s s₁ s' i slots value values hremove hrest ih =>
      obtain ⟨hi, hnodup⟩ := List.nodup_cons.mp hnodup
      have hrest : slots.map s.get? = slots.map s₁.get? := by
        refine List.map_congr_left fun j hj => ?_
        exact (get?_of_remove? hremove fun heq => hi (heq ▸ hj)).symm
      have hfirst := (remove?_eq_some.mp hremove).1
      rw [List.map_cons, List.map_cons, hfirst, hrest, ih hnodup]

/-- The values that pass a test are in the slots where the test passes, in their order. -/
theorem map_get?_slotsWhere (s : Slots α) (p : α → Bool) :
    (s.slotsWhere p).map s.get? = (s.values.filter p).map some := by
  rw [slotsWhere, ← entries_map_snd, List.filter_map, List.map_map, List.map_map]
  refine List.map_congr_left fun entry hentry => ?_
  exact mem_entries.mp (List.mem_of_mem_filter hentry)

/-- The values that pass a test are given away in the order of their slots. -/
theorem Gives.values_eq {p : α → Bool} (h : Gives s (s.slotsWhere p) values s') :
    values = s.values.filter p := by
  have hslots := s.map_get?_slotsWhere p
  rw [h.map_get? (s.slotsWhere_nodup p)] at hslots
  exact List.map_injective_iff.mpr (fun _ _ => Option.some.inj) hslots

/-- Giving away what passes a test leaves what does not. -/
theorem Gives.values_filter {p : α → Bool} (h : Gives s (s.slotsWhere p) values s') :
    values.Perm (s.values.filter p) ∧ s'.values.Perm (s.values.filter fun v => !p v) := by
  have hgiven : ∀ value ∈ values, p value = true := by
    intro value hvalue
    rw [h.values_eq] at hvalue
    exact List.of_mem_filter hvalue
  have hleft : ∀ value ∈ s'.values, p value = false := by
    intro value hvalue
    obtain ⟨i, hi⟩ := mem_values.mp hvalue
    obtain ⟨hget, hnot⟩ := h.get? hi
    by_contra hpasses
    exact hnot (mem_slotsWhere.mpr ⟨value, hget, by simpa using hpasses⟩)
  refine ⟨.of_eq h.values_eq, (List.Perm.trans (List.Perm.filter _ h.values_perm) ?_).symm⟩
  rw [List.filter_append, List.filter_eq_nil_iff.mpr fun v hv => by simp [hgiven v hv],
    List.filter_eq_self.mpr fun v hv => by simp [hleft v hv], List.nil_append]

end Slots

namespace State

/-- A table has these slots left after it gave references away. -/
def giveAway (s : State) (t : Key Table) (left : Slots (Key Endpoint))
    (given : List (Key Endpoint)) : State :=
  { s with
    tables := s.tables.modify t fun table => { table with slots := left }
    inFlight := given.reverse ++ s.inFlight }

/-- The table has what is left, and other tables have what they had. -/
theorem slots_giveAway {s : State} {t : Key Table} {slots : List Nat}
    {left : Slots (Key Endpoint)} {given : List (Key Endpoint)}
    (h : Slots.Gives (s.tables.get t).slots slots given left) :
    ((s.giveAway t left given).tables.get t).slots = left ∧
      ∀ t', t' ≠ t →
        ((s.giveAway t left given).tables.get t').slots = (s.tables.get t').slots := by
  refine ⟨?_, fun _ hne => congrArg Table.slots (Arena.get_modify_of_ne _ _ hne)⟩
  simp only [giveAway, Arena.get_modify, true_and]
  cases h with
  | nil => split <;> rfl
  | cons hremove _ =>
      rw [if_pos (State.index_lt_of_slot (Slots.remove?_eq_some.mp hremove).1)]

end State

namespace Table

variable {w : World} {t : Key Table}

/-- Occupied slots are vacated one after the other. -/
theorem ensures_vacateEach {slots : List Nat} (hnodup : slots.Nodup)
    (hslots : ∀ slot ∈ slots, ∃ e, (w.state.tables.get t).slots.get? slot = some e) :
    Ensures (slots.mapM (vacate t)) w fun r w' =>
      ∃ es left, r = .ok es ∧ w' = w.alter (·.giveAway t left es) ∧
        Slots.Gives (w.state.tables.get t).slots slots es left := by
  induction slots generalizing w with
  | nil =>
      refine ⟨[], (w.state.tables.get t).slots, rfl, ?_, .nil _⟩
      have htables := w.state.tables.modify_eq_self t
        (fun table => { table with slots := (w.state.tables.get t).slots }) rfl
      simp only [World.alter, State.giveAway, htables]
      rfl
  | cons slot rest ih =>
      obtain ⟨e, hget⟩ := hslots slot List.mem_cons_self
      obtain ⟨hfresh, hrest⟩ := List.nodup_cons.mp hnodup
      have ht := State.index_lt_of_slot hget
      obtain ⟨s, hslot⟩ := uninstall?_of_get? hget
      obtain ⟨left, hremove, rfl⟩ := State.uninstall?_eq_some hslot
      have hleft : ((w.state.tables.modify t fun table =>
          { table with slots := left }).get t).slots = left := by
        rw [Arena.get_modify_self _ _ _ ht]
      rw [List.mapM_cons]
      simp only [ensures_bind]
      unfold vacate
      simp only [ensures_bind, ensures_getState, then_ok, hslot, ensures_modifyState,
        ensures_pure]
      refine Ensures.mono (ih hrest fun slot' hslot' => ?_) fun r w' hr => ?_
      · obtain ⟨e', hget'⟩ := hslots slot' (List.mem_cons_of_mem _ hslot')
        refine ⟨e', ?_⟩
        rw [World.alter_state, hleft,
          Slots.get?_of_remove? hremove fun heq => hfresh (heq ▸ hslot')]
        exact hget'
      · obtain ⟨es, left', rfl, rfl, hgives⟩ := hr
        rw [World.alter_state, hleft] at hgives
        refine ⟨e :: es, left', rfl, ?_, .cons hremove hgives⟩
        simp only [World.alter, State.giveAway, Arena.modify_modify, List.reverse_cons,
          List.append_assoc, List.singleton_append]
        rfl

/-- The slots of the endpoints of a device are occupied. -/
theorem occupied_of_mem_deviceSlots {s : State} {address : UInt8} {slot : Nat}
    (h : slot ∈ (s.tables.get t).deviceSlots s.targetOf address) :
    ∃ e, (s.tables.get t).slots.get? slot = some e := by
  obtain ⟨e, hget, -⟩ := Slots.mem_slotsWhere.mp h
  exact ⟨e, hget⟩

end Table
end UsbTransfer
