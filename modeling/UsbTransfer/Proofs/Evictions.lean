import UsbTransfer.Proofs.Listings

/-!
# What removals leave

A table from which endpoints are removed has their slots vacant and all else where it was.  What a
removal gives back is what a look-up finds, and the endpoints of a device are given back in the
order of their slots, which are told before the first of them is vacated.
-/

namespace UsbTransfer

open Run

namespace Slots

variable {α : Type} [DecidableEq α] {s s' s'' : Slots α} {gone gone' : List α}

/-- The slots of some values are vacant, and the others are as they were. -/
def Drops (gone : List α) (s s' : Slots α) : Prop :=
  s'.cells = s.cells.map (Option.filter (· ∉ gone))

theorem drops_nil (s : Slots α) : Drops [] s s := by
  have hkept : Option.filter (fun x => decide (x ∉ ([] : List α))) = id := by
    funext cell
    cases cell <;> simp [Option.filter]
  rw [Drops, hkept, List.map_id]

theorem Drops.trans (h : Drops gone s s') (h' : Drops gone' s' s'') :
    Drops (gone ++ gone') s s'' := by
  rw [Drops, h', h, List.map_map]
  refine List.map_congr_left fun cell _ => ?_
  cases cell with
  | none => rfl
  | some value => by_cases hvalue : value ∈ gone <;> simp [Option.filter, hvalue]

/-- The same values may be told in any order. -/
theorem Drops.congr (h : Drops gone s s') (hsame : ∀ value, value ∈ gone ↔ value ∈ gone') :
    Drops gone' s s' := by
  simpa only [Drops, hsame] using h

theorem Drops.get? (h : Drops gone s s') (i : Nat) :
    s'.get? i = (s.get? i).filter (· ∉ gone) := by
  rw [Slots.get?, Slots.get?, show s'.cells = _ from h, List.getElem?_map]
  rcases s.cells[i]? with _ | _ | value <;> rfl

theorem Drops.entries (h : Drops gone s s') :
    s'.entries = s.entries.filter (·.2 ∉ gone) := by
  rw [Slots.entries, Slots.entries, show s'.cells = _ from h, List.zipIdx_map, List.filterMap_map,
    List.filter_filterMap]
  refine congrArg (List.filterMap · _) (funext fun entry => ?_)
  obtain ⟨cell, i⟩ := entry
  cases cell with
  | none => rfl
  | some value => by_cases hvalue : value ∈ gone <;> simp [Option.filter, hvalue]

theorem Drops.values (h : Drops gone s s') : s'.values = s.values.filter (· ∉ gone) := by
  rw [← entries_map_snd, h.entries, ← entries_map_snd, List.filter_map]
  rfl

/-- A value that stands in one slot only is gone when that slot is vacated. -/
theorem drops_of_remove? {i : Nat} {value : α} (hnodup : s.values.Nodup)
    (h : s.remove? i = some (value, s')) :
    Drops [value] s s' := by
  obtain ⟨hget, rfl⟩ := remove?_eq_some.mp h
  rw [← entries_map_snd] at hnodup
  have honce : ∀ j, s.get? j = some value → i = j := fun j hj =>
    congrArg Prod.fst (List.inj_on_of_nodup_map hnodup (mem_entries.mpr hget)
      (mem_entries.mpr hj) rfl)
  refine List.ext_getElem? fun j => ?_
  rw [List.getElem?_map]
  by_cases hij : i = j
  · subst hij
    have hcell := get?_eq_some.mp hget
    rw [List.getElem?_set_self (List.getElem?_eq_some_iff.mp hcell).1, hcell]
    simp [Option.filter]
  · rw [List.getElem?_set_ne hij]
    rcases hcell : s.cells[j]? with _ | _ | other
    · rfl
    · rfl
    · have hother : other ≠ value := by
        rintro rfl
        exact hij (honce j (get?_eq_some.mpr hcell))
      simp [Option.filter, hother]

theorem Gives.drops {slots : List Nat} {values : List α} (h : Gives s slots values s')
    (hnodup : s.values.Nodup) :
    Drops values s s' := by
  induction h with
  | nil => exact drops_nil _
  | cons hremove _ ih =>
      have hfirst := drops_of_remove? hnodup hremove
      have hrest := (values_perm_of_remove? hremove).nodup_iff.mp hnodup
      exact hfirst.trans (ih (List.nodup_cons.mp hrest).2)

end Slots

namespace State

variable {s s' s'' : State} {t : Key Table} {gone gone' : List (Key Endpoint)}

/-- The endpoints that are installed in a table, in the order of its slots. -/
abbrev installed (s : State) (t : Key Table) : List (Key Endpoint) :=
  (s.tables.get t).slots.values

/-- The installed endpoints of a device, in the order of their slots. -/
def onDevice (s : State) (t : Key Table) (address : UInt8) : List (Key Endpoint) :=
  (s.installed t).filter fun e => (s.targetOf e).address = address

theorem map_get?_deviceSlots (s : State) (t : Key Table) (address : UInt8) :
    ((s.tables.get t).deviceSlots s.targetOf address).map (s.tables.get t).slots.get? =
      (s.onDevice t address).map some :=
  Slots.map_get?_slotsWhere _ _

/-- A table has given some endpoints back.  What it has left is where it was, and other tables,
endpoints and buses are as before. -/
structure Evicts (t : Key Table) (gone : List (Key Endpoint)) (s s' : State) : Prop where
  slots : (s.tables.get t).slots.Drops gone (s'.tables.get t).slots
  others : ∀ t', t' ≠ t → (s'.tables.get t').slots = (s.tables.get t').slots
  endpoints : s'.endpoints = s.endpoints
  buses : s'.buses = s.buses

theorem Evicts.refl (s : State) (t : Key Table) : s.Evicts t [] s :=
  ⟨Slots.drops_nil _, fun _ _ => rfl, rfl, rfl⟩

theorem Evicts.trans (h : s.Evicts t gone s') (h' : s'.Evicts t gone' s'') :
    s.Evicts t (gone ++ gone') s'' :=
  ⟨h.slots.trans h'.slots, fun t' hne => (h'.others t' hne).trans (h.others t' hne),
    h'.endpoints.trans h.endpoints, h'.buses.trans h.buses⟩

theorem Evicts.congr (h : s.Evicts t gone s') (hsame : ∀ e, e ∈ gone ↔ e ∈ gone') :
    s.Evicts t gone' s' :=
  { h with slots := h.slots.congr hsame }

theorem Evicts.targetOf_eq (h : s.Evicts t gone s') : s'.targetOf = s.targetOf := by
  funext e
  rw [targetOf, h.endpoints]
  rfl

theorem Evicts.installed_eq (h : s.Evicts t gone s') :
    s'.installed t = (s.installed t).filter (· ∉ gone) :=
  h.slots.values

/-- No two endpoints that are left match. -/
theorem Evicts.exclusive (h : s.Evicts t gone s')
    (hexclusive : (s.tables.get t).Exclusive s.targetOf) :
    (s'.tables.get t).Exclusive s'.targetOf := by
  intro i j e e' hi hj hmatches
  rw [h.targetOf_eq] at hmatches
  rw [h.slots.get?] at hi hj
  exact hexclusive i j e e' (Option.eq_some_of_filter_eq_some hi)
    (Option.eq_some_of_filter_eq_some hj) hmatches

/-- What was not given back is found where it was. -/
theorem Evicts.lookup?_eq (h : s.Evicts t gone s') {target : Target}
    (hspared : ∀ e ∈ gone, ¬ (s.targetOf e).Matches target) :
    (s'.tables.get t).lookup? s'.targetOf target = (s.tables.get t).lookup? s.targetOf target := by
  rw [Table.lookup?_eq_head?, Table.lookup?_eq_head?, Table.matching, Table.matching,
    h.slots.entries, h.targetOf_eq, List.filter_filter]
  refine congrArg List.head? (List.filter_congr fun entry _ => ?_)
  by_cases hmatches : (s.targetOf entry.2).Matches target
  · have hkept : entry.2 ∉ gone := fun hmem => hspared _ hmem hmatches
    simp [hmatches, hkept]
  · simp [hmatches]

/-- A table that was locked meanwhile gave back the same. -/
theorem Evicts.unlocked {lock lock' : Lock} (h : (s.lockTable t lock).Evicts t gone s') :
    s.Evicts t gone (s'.lockTable t lock') := by
  refine ⟨?_, fun t' hne => ?_, h.endpoints, h.buses⟩
  · rw [slots_lockTable]
    exact s.slots_lockTable t t lock ▸ h.slots
  · rw [slots_lockTable, h.others t' hne, slots_lockTable]

end State

/-! ## Operations -/

namespace Table

variable {hands : Hands} {w : World} {t : Key Table} {target : Target}

/-- What a look-up for the target finds, if anything. -/
def found? (s : State) (t : Key Table) (target : Target) : Option (Key Endpoint) :=
  ((s.tables.get t).lookup? s.targetOf target).map (·.2)

theorem ensures_find?_found (hw : w.Ready hands) (target : Target) :
    Ensures (find? t target) w fun r _ => r = .ok (found? w.state t target) := by
  have hfree := hw.sound.tablesFree t
  cases hlookup : (w.state.tables.get t).lookup? w.state.targetOf target with
  | none => exact ensures_find?_of_none hfree hlookup (by rw [found?, hlookup]; rfl)
  | some entry =>
      have hreferences := references_pos_of_lookup? hw.sound hlookup
      exact ensures_find?_of_some hfree hlookup hreferences (by rw [found?, hlookup]; rfl)

/-- Under the lock or not, an endpoint that is uninstalled leaves the others where they are. -/
theorem evicts_uninstall {s s' : State} {slot : Nat} {e : Key Endpoint}
    (hexclusive : (s.tables.get t).Exclusive s.targetOf)
    (hslot : s.uninstall? t slot = some (e, s')) :
    s.Evicts t [e] s' := by
  obtain ⟨hremove, hothers⟩ := State.slots_uninstall hslot
  obtain ⟨_, -, rfl⟩ := State.uninstall?_eq_some hslot
  exact ⟨Slots.drops_of_remove? hexclusive.nodup hremove, hothers, rfl, rfl⟩

/-- What a look-up finds is given back. -/
theorem ensures_remove_evicts (hw : w.Ready hands)
    (hexclusive : (w.state.tables.get t).Exclusive w.state.targetOf) (target : Target) :
    Ensures (remove t target) w fun r w' =>
      r = .ok ((found? w.state t target).elim (.error .notRegistered) .ok) ∧
        w.state.Evicts t (found? w.state t target).toList w'.state := by
  have hfree := hw.sound.tablesFree t
  unfold found?
  cases hlookup : (w.state.tables.get t).lookup? w.state.targetOf target with
  | none => exact ensures_remove_of_none hfree hlookup ⟨rfl, .refl _ t⟩
  | some entry =>
      obtain ⟨slot, e⟩ := entry
      obtain ⟨s, hslot⟩ := uninstall?_of_get? (lookup?_eq_some hlookup).1
      exact ensures_remove_of_some hfree hlookup hslot ⟨rfl, evicts_uninstall hexclusive hslot⟩

/-- The slots of a device are vacated one after the other. -/
theorem ensures_vacateDevice (hnodup : (w.state.installed t).Nodup) (address : UInt8) :
    Ensures (((w.state.tables.get t).deviceSlots w.state.targetOf address).mapM (vacate t)) w
      fun r w' => r = .ok (w.state.onDevice t address) ∧
        w.state.Evicts t (w.state.onDevice t address) w'.state ∧ w'.history = w.history := by
  apply Ensures.mono (ensures_vacateEach (Slots.slotsWhere_nodup _ _)
    fun slot hslot => occupied_of_mem_deviceSlots hslot)
  rintro r w' ⟨es, left, rfl, rfl, hgives⟩
  obtain rfl : es = w.state.onDevice t address := hgives.values_eq
  obtain ⟨hslots, hothers⟩ := State.slots_giveAway hgives
  have hdrops := hgives.drops hnodup
  rw [← hslots] at hdrops
  exact ⟨rfl, ⟨hdrops, hothers, rfl, rfl⟩, rfl⟩

/-- The endpoints of a device are given back in the order of their slots. -/
theorem ensures_removeDevice_evicts (hw : w.Ready hands)
    (hexclusive : (w.state.tables.get t).Exclusive w.state.targetOf) (address : UInt8) :
    Ensures (removeDevice t address) w fun r w' =>
      r = .ok (w.state.onDevice t address) ∧
        w.state.Evicts t (w.state.onDevice t address) w'.state ∧
          ∃ s, w'.history = ⟨.deviceUnregistered t address
            (w.state.onDevice t address).length, s⟩ :: w.history := by
  obtain ⟨locked, hlocked⟩ : ∃ locked, locked = w.alter (·.lockTable t .held) := ⟨_, rfl⟩
  have hinstalled : locked.state.installed t = w.state.installed t :=
    hlocked ▸ congrArg Slots.values (w.state.slots_lockTable t t .held)
  have honDevice : locked.state.onDevice t address = w.state.onDevice t address := by
    rw [State.onDevice, hinstalled, hlocked]
    rfl
  have hcount := congrArg List.length (locked.state.map_get?_deviceSlots t address)
  rw [List.length_map, List.length_map, honDevice] at hcount
  unfold removeDevice locking
  rw [ensures_guarding (hw.sound.tablesFree t)]
  change Ensures _ (w.alter (·.lockTable t .held)) _
  rw [← hlocked]
  simp only [ensures_bind, ensures_getState, ensures_record, then_ok]
  rw [hcount]
  have hvacated := ensures_vacateDevice (t := t) (w := locked.note (.deviceUnregistered t address
    (w.state.onDevice t address).length)) (hinstalled ▸ hexclusive.nodup) address
  rw [World.note_state, honDevice] at hvacated
  apply Ensures.mono hvacated
  rintro r w' ⟨rfl, hevicts, hhistory⟩
  subst hlocked
  exact ⟨rfl, hevicts.unlocked, _, hhistory⟩

end Table
end UsbTransfer
