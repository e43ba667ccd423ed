/-!
# Slots

A store of numbered slots that reuses what was vacated: a new value takes the slot vacated last,
or a new slot at the end when none is vacant.  Slots keep their numbers, and all that goes
through a store goes in the order of the slots.
-/

namespace UsbTransfer

/-- Numbered slots and the numbers of the vacated ones, the latest first. -/
structure Slots (α : Type) where
  cells : List (Option α)
  vacated : List Nat
deriving Repr

namespace Slots

variable {α : Type}

/-- The store without slots. -/
def empty : Slots α := ⟨[], []⟩

instance : Inhabited (Slots α) := ⟨empty⟩

/-- The occupied slots with their numbers, in order. -/
def entries (s : Slots α) : List (Nat × α) :=
  s.cells.zipIdx.filterMap fun (cell, i) => cell.map (i, ·)

/-- The values in the order of their slots. -/
def values (s : Slots α) : List α :=
  s.cells.filterMap id

/-- The number of occupied slots. -/
def size (s : Slots α) : Nat :=
  s.values.length

/-- The value in a slot. -/
def get? (s : Slots α) (i : Nat) : Option α :=
  (s.cells[i]?).join

/-- Puts a value into the slot vacated last, or into a new one. -/
def insert (s : Slots α) (value : α) : Slots α :=
  match s.vacated with
  | [] => ⟨s.cells ++ [some value], []⟩
  | i :: rest => ⟨s.cells.set i (some value), rest⟩

/-- Vacates an occupied slot; a vacant one has nothing to give. -/
def remove? (s : Slots α) (i : Nat) : Option (α × Slots α) :=
  (s.get? i).map fun value => (value, ⟨s.cells.set i none, i :: s.vacated⟩)

/-- The first occupied slot whose value passes the test. -/
def findSlot? (s : Slots α) (p : α → Bool) : Option (Nat × α) :=
  s.entries.find? fun (_, value) => p value

/-- The numbers of the occupied slots whose values pass the test, in order. -/
def slotsWhere (s : Slots α) (p : α → Bool) : List Nat :=
  (s.entries.filter fun (_, value) => p value).map (·.1)

/-- The vacated slots are the empty ones, each once. -/
structure Proper (s : Slots α) : Prop where
  nodup : s.vacated.Nodup
  mem_vacated : ∀ i, i ∈ s.vacated ↔ s.cells[i]? = some none

theorem proper_empty : (empty : Slots α).Proper where
  nodup := List.nodup_nil
  mem_vacated := by simp [empty]

theorem get?_eq_some {s : Slots α} {i : Nat} {value : α} :
    s.get? i = some value ↔ s.cells[i]? = some (some value) := by
  simp [get?, Option.join_eq_some_iff]

theorem mem_values {s : Slots α} {value : α} :
    value ∈ s.values ↔ ∃ i, s.get? i = some value := by
  simp only [values, List.mem_filterMap, id_eq, exists_eq_right, get?_eq_some]
  exact List.mem_iff_getElem?

theorem entries_map_snd (s : Slots α) : s.entries.map (·.2) = s.values := by
  calc
    s.entries.map (·.2) = s.cells.zipIdx.filterMap Prod.fst := by
      rw [entries, List.map_filterMap]
      refine congrArg (List.filterMap · _) (funext fun entry => ?_)
      obtain ⟨cell, i⟩ := entry
      cases cell <;> rfl
    _ = (s.cells.zipIdx.map Prod.fst).filterMap id := by
      rw [List.filterMap_map]
      rfl
    _ = s.values := by
      rw [List.zipIdx_map_fst]
      rfl

theorem filterMap_id_set_some (cells : List (Option α)) (i : Nat) (value : α)
    (h : cells[i]? = some none) :
    ((cells.set i (some value)).filterMap id).Perm (value :: cells.filterMap id) := by
  induction cells generalizing i with
  | nil => simp at h
  | cons cell rest ih =>
      cases i with
      | zero =>
          obtain rfl : cell = none := by simpa using h
          simp
      | succ i =>
          have hrest := ih i (by simpa using h)
          cases cell with
          | none => simpa using hrest
          | some other =>
              simpa using (hrest.cons other).trans (List.Perm.swap value other _)

theorem filterMap_id_set_none (cells : List (Option α)) (i : Nat) (value : α)
    (h : cells[i]? = some (some value)) :
    (cells.filterMap id).Perm (value :: (cells.set i none).filterMap id) := by
  induction cells generalizing i with
  | nil => simp at h
  | cons cell rest ih =>
      cases i with
      | zero =>
          obtain rfl : cell = some value := by simpa using h
          simp
      | succ i =>
          have hrest := ih i (by simpa using h)
          cases cell with
          | none => simpa using hrest
          | some other =>
              simpa using (hrest.cons other).trans (List.Perm.swap value other _)

/-- An insertion adds its value and nothing else. -/
theorem Proper.values_insert_perm {s : Slots α} (hs : s.Proper) (value : α) :
    (s.insert value).values.Perm (value :: s.values) := by
  obtain ⟨cells, vacated⟩ := s
  cases vacated with
  | nil =>
      simp only [insert, values, List.filterMap_append, List.filterMap_cons, id_eq,
        List.filterMap_nil]
      exact List.perm_append_singleton value _
  | cons i rest =>
      have hempty : cells[i]? = some none := (hs.mem_vacated i).mp List.mem_cons_self
      exact filterMap_id_set_some cells i value hempty

theorem Proper.insert {s : Slots α} (hs : s.Proper) (value : α) :
    (s.insert value).Proper := by
  obtain ⟨cells, vacated⟩ := s
  cases vacated with
  | nil =>
      refine ⟨List.nodup_nil, fun i => ?_⟩
      have hcell : ¬ cells[i]? = some none := by
        intro h
        exact List.not_mem_nil ((hs.mem_vacated i).mpr h)
      simp only [Slots.insert, List.not_mem_nil, false_iff]
      rw [List.getElem?_append]
      split
      · exact hcell
      · cases i - cells.length <;> simp
  | cons i rest =>
      have hnodup := List.nodup_cons.mp hs.nodup
      refine ⟨hnodup.2, fun j => ?_⟩
      simp only [Slots.insert]
      by_cases hij : i = j
      · subst hij
        rw [List.getElem?_set_self']
        simp [hnodup.1, Option.map_eq_some_iff]
      · rw [List.getElem?_set_ne hij, ← hs.mem_vacated j, List.mem_cons]
        simp [Ne.symm hij]

theorem remove?_eq_some {s s' : Slots α} {i : Nat} {value : α} :
    s.remove? i = some (value, s') ↔
      s.get? i = some value ∧ s' = ⟨s.cells.set i none, i :: s.vacated⟩ := by
  simp only [remove?, Option.map_eq_some_iff, Prod.mk.injEq]
  constructor
  · rintro ⟨_, hget, rfl, rfl⟩
    exact ⟨hget, rfl⟩
  · rintro ⟨hget, rfl⟩
    exact ⟨value, hget, rfl, rfl⟩

/-- A removal takes its value away and nothing else. -/
theorem values_perm_of_remove? {s s' : Slots α} {i : Nat} {value : α}
    (h : s.remove? i = some (value, s')) :
    s.values.Perm (value :: s'.values) := by
  obtain ⟨hget, rfl⟩ := remove?_eq_some.mp h
  exact filterMap_id_set_none s.cells i _ (get?_eq_some.mp hget)

theorem Proper.remove {s s' : Slots α} {i : Nat} {value : α} (hs : s.Proper)
    (h : s.remove? i = some (value, s')) :
    s'.Proper := by
  obtain ⟨hget, rfl⟩ := remove?_eq_some.mp h
  rw [get?_eq_some] at hget
  have hoccupied : i ∉ s.vacated := by
    rw [hs.mem_vacated, hget]
    simp
  refine ⟨List.nodup_cons.mpr ⟨hoccupied, hs.nodup⟩, fun j => ?_⟩
  by_cases hij : i = j
  · subst hij
    have hlt : i < s.cells.length := (List.getElem?_eq_some_iff.mp hget).1
    simp [hlt]
  · rw [List.getElem?_set_ne hij, List.mem_cons, hs.mem_vacated]
    simp [Ne.symm hij]

theorem get?_insert {s : Slots α} (hs : s.Proper) (value : α) {i : Nat}
    {other : α} (h : s.get? i = some other) :
    (s.insert value).get? i = some other := by
  obtain ⟨cells, vacated⟩ := s
  rw [get?_eq_some] at h ⊢
  cases vacated with
  | nil =>
      have hlt : i < cells.length := (List.getElem?_eq_some_iff.mp h).1
      simpa [Slots.insert, List.getElem?_append_left hlt] using h
  | cons j rest =>
      have hempty : cells[j]? = some none := (hs.mem_vacated j).mp List.mem_cons_self
      have hij : j ≠ i := by
        rintro rfl
        simp [hempty] at h
      simpa [Slots.insert, List.getElem?_set_ne hij] using h

/-- An insertion takes one vacant slot and leaves the others alone. -/
theorem Proper.exists_get?_insert {s : Slots α} (hs : s.Proper) (value : α) :
    ∃ i, s.get? i = none ∧ (s.insert value).get? i = some value ∧
      ∀ j, j ≠ i → (s.insert value).get? j = s.get? j := by
  obtain ⟨cells, vacated⟩ := s
  cases vacated with
  | nil =>
      refine ⟨cells.length, by simp [get?], by simp [get?, Slots.insert], fun j hj => ?_⟩
      simp only [get?, Slots.insert]
      rcases Nat.lt_or_gt_of_ne hj with hlt | hgt
      · rw [List.getElem?_append_left hlt]
      · have hbeyond : (cells ++ [some value]).length ≤ j := by
          rw [List.length_append, List.length_singleton]
          exact hgt
        rw [List.getElem?_eq_none hbeyond, List.getElem?_eq_none (Nat.le_of_lt hgt)]
  | cons i rest =>
      have hempty : cells[i]? = some none := (hs.mem_vacated i).mp List.mem_cons_self
      have hlt : i < cells.length := (List.getElem?_eq_some_iff.mp hempty).1
      refine ⟨i, by simp [get?, hempty], by simp [get?, Slots.insert, hlt], fun j hj => ?_⟩
      simp only [get?, Slots.insert]
      rw [List.getElem?_set_ne hj.symm]

theorem mem_entries {s : Slots α} {i : Nat} {value : α} :
    (i, value) ∈ s.entries ↔ s.get? i = some value := by
  simp only [entries, List.mem_filterMap, get?_eq_some, Prod.exists, Option.map_eq_some_iff,
    Prod.mk.injEq]
  constructor
  · rintro ⟨cell, j, hcell, a, rfl, rfl, rfl⟩
    exact List.mem_zipIdx_iff_getElem?.mp hcell
  · intro h
    exact ⟨some value, i, List.mem_zipIdx_iff_getElem?.mpr h, value, rfl, rfl, rfl⟩

theorem entries_pairwise (s : Slots α) :
    s.entries.Pairwise fun a b => a.1 < b.1 := by
  have hindices : s.cells.zipIdx.Pairwise fun a b => a.2 < b.2 := by
    rw [← List.pairwise_map, List.zipIdx_map_snd]
    exact List.pairwise_lt_range'
  simp only [entries, List.pairwise_filterMap]
  refine hindices.imp fun {a b} hlt x hx y hy => ?_
  simp only [Option.map_eq_some_iff] at hx hy
  obtain ⟨_, -, rfl⟩ := hx
  obtain ⟨_, -, rfl⟩ := hy
  exact hlt

theorem slotsWhere_nodup (s : Slots α) (p : α → Bool) :
    (s.slotsWhere p).Nodup := by
  simp only [slotsWhere, List.Nodup, List.pairwise_map]
  exact (s.entries_pairwise.filter _).imp fun h => Nat.ne_of_lt h

theorem mem_slotsWhere {s : Slots α} {p : α → Bool} {i : Nat} :
    i ∈ s.slotsWhere p ↔ ∃ value, s.get? i = some value ∧ p value = true := by
  simp [slotsWhere, mem_entries]

theorem get?_of_remove? {s s' : Slots α} {i j : Nat} {value : α}
    (h : s.remove? i = some (value, s')) (hij : i ≠ j) :
    s'.get? j = s.get? j := by
  obtain ⟨-, rfl⟩ := remove?_eq_some.mp h
  simp [get?, List.getElem?_set_ne hij]

/-- What is left after a removal was there before, in another slot. -/
theorem get?_of_get?_remove? {s s' : Slots α} {i j : Nat} {value other : α}
    (h : s.remove? i = some (value, s')) (hother : s'.get? j = some other) :
    s.get? j = some other ∧ i ≠ j := by
  have hij : i ≠ j := by
    rintro rfl
    obtain ⟨-, rfl⟩ := remove?_eq_some.mp h
    rw [get?_eq_some] at hother
    simp [List.getElem?_set_self'] at hother
  exact ⟨(get?_of_remove? h hij).symm.trans hother, hij⟩

theorem findSlot?_eq_some {s : Slots α} {p : α → Bool} {i : Nat} {value : α}
    (h : s.findSlot? p = some (i, value)) :
    s.get? i = some value ∧ p value = true := by
  have hpasses := List.find?_some h
  exact ⟨mem_entries.mp (List.mem_of_find?_eq_some h), hpasses⟩

theorem findSlot?_eq_none {s : Slots α} {p : α → Bool} :
    s.findSlot? p = none ↔ ∀ value ∈ s.values, p value = false := by
  simp only [findSlot?, List.find?_eq_none, Prod.forall, mem_entries, mem_values,
    Bool.not_eq_true]
  constructor
  · rintro h value ⟨i, hi⟩
    exact h i value hi
  · intro h i value hi
    exact h value ⟨i, hi⟩

end Slots

end UsbTransfer
