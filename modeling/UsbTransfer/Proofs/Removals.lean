import UsbTransfer.Proofs.Holdings

/-!
# Removing a device

To remove a device from a table is to remove its endpoints one by one, in any order: either way each
of them is given back, its slot is vacant afterwards, and nothing else has changed.  The slots of a
device are told before the first of them is vacated, while endpoints that are removed one by one are
looked up by their targets each time; both reach the same endpoints since no two installed ones
match, and that remains so after each removal.
-/

namespace UsbTransfer

open Run

namespace Table

variable {hands : Hands} {w : World} {t : Key Table}

/-- An installed endpoint is what is found at its own target. -/
theorem found?_targetOf {e : Key Endpoint}
    (hexclusive : (w.state.tables.get t).Exclusive w.state.targetOf)
    (he : e ∈ w.state.installed t) :
    found? w.state t (w.state.targetOf e) = some e := by
  obtain ⟨slot, hslot⟩ := Slots.mem_values.mp he
  cases hlookup : (w.state.tables.get t).lookup? w.state.targetOf (w.state.targetOf e) with
  | none =>
      have hnone := Slots.findSlot?_eq_none.mp hlookup e he
      exact absurd (.refl _) (of_decide_eq_false hnone)
  | some entry =>
      obtain ⟨hget, hmatches⟩ := lookup?_eq_some hlookup
      obtain rfl := hexclusive _ _ _ _ hget hslot hmatches
      rw [found?, hlookup]
      exact (hget.symm.trans hslot : some entry.2 = some e)

/-- Installed endpoints are given back one by one. -/
theorem ensures_removeEach {order : List (Key Endpoint)} {targetOf : Key Endpoint → Target}
    (hw : w.Ready hands) (htargets : w.state.targetOf = targetOf)
    (hexclusive : (w.state.tables.get t).Exclusive w.state.targetOf) (hnodup : order.Nodup)
    (hinstalled : ∀ e ∈ order, e ∈ w.state.installed t) :
    Ensures (order.mapM fun e => remove t (targetOf e)) w fun r w' =>
      r = .ok (order.map .ok) ∧ w.state.Evicts t order w'.state := by
  induction order generalizing w with
  | nil => exact ⟨rfl, .refl _ t⟩
  | cons e rest ih =>
      obtain ⟨hfresh, hrest⟩ := List.nodup_cons.mp hnodup
      have hfound := found?_targetOf hexclusive (hinstalled e List.mem_cons_self)
      rw [htargets] at hfound
      rw [List.mapM_cons, ensures_bind]
      apply Ensures.mono ((remove_orderly hw (targetOf e)).and
        (ensures_remove_evicts hw hexclusive (targetOf e)))
      rintro r w₁ ⟨haccount, rfl, hevicts⟩
      rw [hfound] at haccount hevicts ⊢
      have hmoves : Moves hands [] [.reference e] w w₁ := haccount
      have hleft : ∀ x ∈ rest, x ∈ w₁.state.installed t := by
        intro x hx
        rw [hevicts.installed_eq, List.mem_filter]
        have hne : x ≠ e := fun heq => hfresh (heq ▸ hx)
        exact ⟨hinstalled x (List.mem_cons_of_mem _ hx), by simpa using hne⟩
      rw [Option.elim_some, then_ok, ensures_bind]
      apply Ensures.mono (ih (hmoves.ready hw) (hevicts.targetOf_eq.trans htargets)
        (hevicts.exclusive hexclusive) hrest hleft)
      rintro r w₂ ⟨rfl, hlater⟩
      exact ⟨rfl, hevicts.trans hlater⟩

end Table

/-! ## A whole device -/

/-- A reset for one device reaches no other. -/
theorem ResetScope.Reaches.address_eq {scope : ResetScope} {asked other : Target}
    (h : scope.Reaches asked other) :
    other.address = asked.address := by
  cases scope with
  | nothing => exact h.elim
  | endpoint => exact h.1
  | device => exact h

namespace World

/-- For one target a table answers as it did. -/
structure AnswersAs (t : Key Table) (target : Target) (w w' : World) : Prop where
  finds : Ensures (Table.find? t target) w fun r _ =>
    Ensures (Table.find? t target) w' fun r' _ => r' = r
  removes : Ensures (Table.remove t target) w fun r _ =>
    Ensures (Table.remove t target) w' fun r' _ => r' = r
  resets : ∀ scope, Ensures (Table.resetToggles t target scope) w fun r _ =>
    Ensures (Table.resetToggles t target scope) w' fun r' _ => r' = r

/-- To remove a device is to remove its endpoints one by one. -/
structure RemovesDevice (w : World) (t : Key Table) (address : UInt8) : Prop where
  /-- The device has no endpoint twice. -/
  nodup : (w.state.onDevice t address).Nodup
  /-- Its endpoints are told in the order of their slots. -/
  ordered : ∃ slots : List Nat, slots.Pairwise (· < ·) ∧
    slots.map (w.state.tables.get t).slots.get? = (w.state.onDevice t address).map some
  /-- They are given back all at once, which is recorded and nothing else is, so no user code has
  run.  The device is not found any more, and for all others the table answers as it did. -/
  at_once : Ensures (Table.removeDevice t address) w fun r w' =>
    r = .ok (w.state.onDevice t address) ∧
      w.state.Evicts t (w.state.onDevice t address) w'.state ∧
      (∃ s, w'.history =
        ⟨.deviceUnregistered t address (w.state.onDevice t address).length, s⟩ :: w.history) ∧
      ∀ target : Target,
        (target.address = address → Ensures (Table.find? t target) w' fun r _ => r = .ok none) ∧
        (target.address ≠ address → w.AnswersAs t target w')
  /-- A reset for the device reaches as many. -/
  counted : ∀ target : Target, target.address = address →
    Ensures (Table.resetToggles t target .device) w fun r _ =>
      r = .ok (w.state.onDevice t address).length
  /-- They may also be removed at their targets, in any order: each removal gives back the endpoint
  that it is meant for, and in the end the same slots are vacant. -/
  one_by_one : ∀ order : List (Key Endpoint), order.Perm (w.state.onDevice t address) →
    Ensures (order.mapM fun e => Table.remove t (w.state.targetOf e)) w fun r w' =>
      r = .ok (order.map .ok) ∧ w.state.Evicts t (w.state.onDevice t address) w'.state

variable {hands hands' : Hands} {w w' : World} {t : Key Table}

/-- What is given back does not show at the targets of other devices. -/
theorem AnswersAs.of_evicts {gone : List (Key Endpoint)} {target : Target} (hw : w.Ready hands)
    (hw' : w'.Ready hands') (hexclusive : (w.state.tables.get t).Exclusive w.state.targetOf)
    (hevicts : w.state.Evicts t gone w'.state)
    (hspared : ∀ e ∈ gone, (w.state.targetOf e).address ≠ target.address) :
    w.AnswersAs t target w' := by
  have hfound : Table.found? w'.state t target = Table.found? w.state t target :=
    congrArg (Option.map _) (hevicts.lookup?_eq fun e he hmatches => hspared e he hmatches.1)
  have hcount : ∀ scope : ResetScope,
      (w'.state.installed t).countP (fun e => scope.Reaches target (w'.state.targetOf e)) =
        (w.state.installed t).countP fun e => scope.Reaches target (w.state.targetOf e) := by
    intro scope
    rw [hevicts.installed_eq, hevicts.targetOf_eq, List.countP_filter]
    refine List.countP_congr fun e _ => ?_
    have hkept : scope.Reaches target (w.state.targetOf e) → e ∉ gone :=
      fun hreaches he => hspared e he hreaches.address_eq
    simpa using hkept
  constructor
  · apply Ensures.mono (Table.ensures_find?_found hw target)
    rintro r _ rfl
    rw [← hfound]
    exact Table.ensures_find?_found hw' target
  · apply Ensures.mono (Table.ensures_remove_evicts hw hexclusive target)
    rintro r _ ⟨rfl, -⟩
    rw [← hfound]
    exact (Table.ensures_remove_evicts hw' (hevicts.exclusive hexclusive) target).mono
      fun _ _ hr => hr.1
  · intro scope
    apply Ensures.mono (Table.leaves_resetToggles hw target scope)
    rintro r _ ⟨rfl, -⟩
    rw [← hcount]
    exact (Table.leaves_resetToggles hw' target scope).mono fun _ _ hr => hr.1

/-- Nothing is found of a device when all of it was given back. -/
theorem found?_of_evicts_device {target : Target}
    (hevicts : w.state.Evicts t (w.state.onDevice t target.address) w'.state) :
    Table.found? w'.state t target = none := by
  cases hlookup : (w'.state.tables.get t).lookup? w'.state.targetOf target with
  | none => rw [Table.found?, hlookup]; rfl
  | some entry =>
      obtain ⟨hget, hmatches⟩ := Table.lookup?_eq_some hlookup
      have hleft : entry.2 ∈ w'.state.installed t := Slots.mem_values.mpr ⟨_, hget⟩
      rw [hevicts.installed_eq, List.mem_filter] at hleft
      rw [hevicts.targetOf_eq] at hmatches
      have hgone : entry.2 ∈ w.state.onDevice t target.address :=
        List.mem_filter.mpr ⟨hleft.1, decide_eq_true hmatches.1⟩
      exact absurd hgone (of_decide_eq_true hleft.2)

end World

namespace Session

variable {w : World}

/-- Wherever user code looks at a table, removing a device gives back its endpoints in the order of
their slots, as many as a reset for the device reaches, and changes nothing else about tables,
endpoints and buses.  The same comes of removing them one by one, in any order. -/
theorem Reachable.removes_device (h : Reachable w) (t : Key Table) (address : UInt8) :
    w.RemovesDevice t address := by
  have hexclusive := h.changes.tabled.exclusive t
  have hnodup : (w.state.onDevice t address).Nodup := hexclusive.nodup.filter _
  refine ⟨hnodup, ⟨_, ?_, w.state.map_get?_deviceSlots t address⟩, ?_, ?_, ?_⟩
  · exact List.pairwise_map.mpr ((w.state.tables.get t).slots.entries_pairwise.filter _)
  · apply Ensures.mono ((Table.removeDevice_orderly h.ready address).and
      (Table.ensures_removeDevice_evicts h.ready hexclusive address))
    rintro r w' ⟨haccount, rfl, hevicts, hhistory⟩
    have hmoves : Moves Hands.empty [] (Item.references _) w w' := haccount
    have hready := hmoves.ready h.ready
    refine ⟨rfl, hevicts, hhistory, fun target => ⟨?_, fun hother => ?_⟩⟩
    · rintro rfl
      have hnone := World.found?_of_evicts_device hevicts
      exact hnone ▸ Table.ensures_find?_found hready target
    · refine .of_evicts h.ready hready hexclusive hevicts fun e he heq => hother ?_
      exact heq.symm.trans (of_decide_eq_true (List.mem_filter.mp he).2)
  · rintro target rfl
    apply Ensures.mono (Table.leaves_resetToggles h.ready target .device)
    rintro r w' ⟨rfl, -⟩
    rw [List.countP_eq_length_filter]
    rfl
  · intro order horder
    apply Ensures.mono (Table.ensures_removeEach h.ready rfl hexclusive
      (horder.nodup_iff.mpr hnodup) fun e he => List.mem_of_mem_filter (horder.subset he))
    rintro r w' ⟨rfl, hevicts⟩
    exact ⟨rfl, hevicts.congr fun e => horder.mem_iff⟩

/-- Both halves of a number are removed, the later one first, and the other device stays. -/
theorem removes_device_backwards :
    ∃ w, Reachable w ∧ w.state.onDevice ⟨0⟩ 1 = [⟨0⟩, ⟨2⟩] ∧
      Ensures ([⟨2⟩, ⟨0⟩].mapM fun e => Table.remove ⟨0⟩ (w.state.targetOf e)) w fun r w' =>
        r = .ok [.ok ⟨2⟩, .ok ⟨0⟩] ∧ w'.state.installed ⟨0⟩ = [⟨1⟩] := by
  obtain ⟨w, hw⟩ : ∃ w, w = after 1 [.addBus "hub" (.bare Script), .addTable "table",
      .addEndpoint "hub" ⟨⟨1, 2, .inbound⟩, .bulk, 64⟩ "in",
      .addEndpoint "hub" ⟨⟨2, 2, .inbound⟩, .bulk, 64⟩ "elsewhere",
      .addEndpoint "hub" ⟨⟨1, 2, .outbound⟩, .bulk, 64⟩ "out",
      .register "table" "in", .register "table" "elsewhere", .register "table" "out"] := ⟨_, rfl⟩
  have hreachable : Reachable w := hw ▸ .idle (idle_after 1 _)
  have honDevice : w.state.onDevice ⟨0⟩ 1 = [⟨0⟩, ⟨2⟩] := by rw [hw]; decide
  have hinstalled : w.state.installed ⟨0⟩ = [⟨0⟩, ⟨1⟩, ⟨2⟩] := by rw [hw]; decide
  refine ⟨w, hreachable, honDevice, ?_⟩
  have hremoves := (hreachable.removes_device ⟨0⟩ 1).one_by_one [⟨2⟩, ⟨0⟩]
    (by rw [honDevice]; exact List.Perm.swap _ _ _)
  refine hremoves.mono fun r w' hr => ⟨hr.1, ?_⟩
  rw [hr.2.installed_eq, hinstalled, honDevice]
  decide

end Session
end UsbTransfer
