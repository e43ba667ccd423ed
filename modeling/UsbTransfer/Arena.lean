/-!
# Arenas

An arena holds objects that are never moved or forgotten: each is known by the key that it got
when it was added, and keys are given out in order.  Asking for a key that was never given out
yields the blank object of the type, and changing it changes nothing.
-/

namespace UsbTransfer

/-- The identity of an object of type `α`. -/
@[ext]
structure Key (α : Type) where
  index : Nat

instance {α : Type} : DecidableEq (Key α) := fun _ _ =>
  decidable_of_iff _ Key.ext_iff.symm

/-- Objects in the order in which they were added. -/
structure Arena (α : Type) where
  cells : List α

namespace Arena

variable {α : Type}

/-- The arena without objects. -/
def empty : Arena α := ⟨[]⟩

/-- The number of objects. -/
def size (a : Arena α) : Nat := a.cells.length

/-- The key that the next object will get. -/
def nextKey (a : Arena α) : Key α := ⟨a.cells.length⟩

/-- The object with the given key, or the blank one. -/
def get [Inhabited α] (a : Arena α) (k : Key α) : α :=
  a.cells.getD k.index default

/-- Adds an object under the next key. -/
def push (a : Arena α) (x : α) : Arena α := ⟨a.cells ++ [x]⟩

/-- Changes the object with the given key. -/
def modify (a : Arena α) (k : Key α) (f : α → α) : Arena α :=
  ⟨a.cells.modify k.index f⟩

variable [Inhabited α]

theorem get_push (a : Arena α) (x : α) (k : Key α) :
    (a.push x).get k = if k = a.nextKey then x else a.get k := by
  have hkey : k = a.nextKey ↔ k.index = a.cells.length := by
    simp [Key.ext_iff, nextKey]
  simp only [get, push, hkey, List.getD_eq_getElem?_getD]
  by_cases h : k.index = a.cells.length
  · simp [h]
  · rw [if_neg h]
    rcases Nat.lt_or_gt_of_ne h with hlt | hgt
    · rw [List.getElem?_append_left hlt]
    · have hbeyond : (a.cells ++ [x]).length ≤ k.index := by
        rw [List.length_append, List.length_singleton]
        exact hgt
      rw [List.getElem?_eq_none hbeyond, List.getElem?_eq_none (Nat.le_of_lt hgt)]

/-- What was there stays what it is. -/
theorem get_push_of_lt (a : Arena α) (x : α) {k : Key α} (h : k.index < a.size) :
    (a.push x).get k = a.get k := by
  rw [get_push, if_neg]
  rintro rfl
  exact Nat.lt_irrefl _ h

theorem get_modify_self (a : Arena α) (k : Key α) (f : α → α) (h : k.index < a.size) :
    (a.modify k f).get k = f (a.get k) := by
  simp only [size] at h
  simp [get, modify, h]

theorem get_modify_of_ne (a : Arena α) {k k' : Key α} (f : α → α) (h : k' ≠ k) :
    (a.modify k f).get k' = a.get k' := by
  have hne : ¬ k.index = k'.index := by
    intro heq
    cases k
    cases k'
    exact h (by simp_all)
  simp [get, modify, List.getD_eq_getElem?_getD, hne]

omit [Inhabited α] in
theorem modify_of_size_le (a : Arena α) (k : Key α) (f : α → α) (h : a.size ≤ k.index) :
    a.modify k f = a := by
  obtain ⟨cells⟩ := a
  simp only [modify, mk.injEq]
  exact List.modify_eq_self h

theorem get_modify (a : Arena α) (k k' : Key α) (f : α → α) :
    (a.modify k f).get k' =
      if k' = k ∧ k.index < a.size then f (a.get k) else a.get k' := by
  by_cases hkey : k' = k
  · subst hkey
    by_cases hsize : k'.index < a.size
    · rw [if_pos ⟨rfl, hsize⟩, get_modify_self a k' f hsize]
    · rw [if_neg (fun h => hsize h.2), modify_of_size_le a k' f (Nat.not_lt.mp hsize)]
  · rw [if_neg (fun h => hkey h.1), get_modify_of_ne a f hkey]

/-- What a change keeps of the changed object, it keeps of every object. -/
theorem apply_get_modify {β : Type} (a : Arena α) (k k' : Key α) (f : α → α) (g : α → β)
    (h : ∀ x, g (f x) = g x) :
    g ((a.modify k f).get k') = g (a.get k') := by
  rw [get_modify]
  split
  · next heq => rw [h, heq.1]
  · rfl

theorem get_of_size_le (a : Arena α) (k : Key α) (h : a.size ≤ k.index) :
    a.get k = default := by
  simp only [size] at h
  simp [get, List.getD_eq_getElem?_getD, List.getElem?_eq_none h]

theorem get_nextKey (a : Arena α) : a.get a.nextKey = default :=
  a.get_of_size_le a.nextKey (Nat.le_refl _)

/-- What is not blank was added. -/
theorem index_lt_of_ne (a : Arena α) {k : Key α} (h : a.get k ≠ default) :
    k.index < a.size :=
  Nat.lt_of_not_le fun hbeyond => h (a.get_of_size_le k hbeyond)

omit [Inhabited α] in
@[simp]
theorem size_modify (a : Arena α) (k : Key α) (f : α → α) :
    (a.modify k f).size = a.size := by
  simp [size, modify]

omit [Inhabited α] in
@[simp]
theorem size_push (a : Arena α) (x : α) :
    (a.push x).size = a.size + 1 := by
  simp [size, push]

/-- Arenas with the same objects under the same keys are the same. -/
theorem ext_get {a a' : Arena α} (hsize : a.size = a'.size) (hget : ∀ k, a.get k = a'.get k) :
    a = a' := by
  obtain ⟨cells⟩ := a
  obtain ⟨cells'⟩ := a'
  simp only [size] at hsize
  rw [mk.injEq]
  apply List.ext_getElem hsize
  intro i hi hi'
  simpa [get, hi, hi'] using hget ⟨i⟩

/-- Changes that agree on the object agree. -/
theorem modify_congr (a : Arena α) (k : Key α) (f g : α → α) (h : f (a.get k) = g (a.get k)) :
    a.modify k f = a.modify k g := by
  obtain ⟨cells⟩ := a
  simp only [modify, mk.injEq]
  apply List.ext_getElem?
  intro i
  rw [List.getElem?_modify, List.getElem?_modify]
  by_cases hi : k.index = i
  · subst hi
    cases hcell : cells[k.index]? with
    | none => simp
    | some x =>
        have hx : f x = g x := by
          simpa [get, List.getD_eq_getElem?_getD, hcell] using h
        simp [hx]
  · simp [hi]

/-- A change that keeps the object keeps the arena. -/
theorem modify_eq_self (a : Arena α) (k : Key α) (f : α → α) (h : f (a.get k) = a.get k) :
    a.modify k f = a := by
  rw [modify_congr a k f id h]
  simp [modify]

omit [Inhabited α] in
theorem modify_modify (a : Arena α) (k : Key α) (f g : α → α) :
    (a.modify k f).modify k g = a.modify k (g ∘ f) := by
  simp [modify, List.modify_modify_eq]

/-- The sum of a measure over all objects. -/
def total (a : Arena α) (g : α → Nat) : Nat :=
  a.cells.foldr (fun x sum => g x + sum) 0

omit [Inhabited α] in
theorem total_push (a : Arena α) (x : α) (g : α → Nat) :
    (a.push x).total g = a.total g + g x := by
  unfold total push
  induction a.cells with
  | nil => exact Nat.add_comm _ _
  | cons y cells ih =>
      simp only [List.cons_append, List.foldr_cons] at ih ⊢
      omega

theorem foldr_modify (cells : List α) (i : Nat) (f : α → α) (g : α → Nat)
    (h : i < cells.length) :
    (cells.modify i f).foldr (fun x sum => g x + sum) 0 + g (cells.getD i default) =
      cells.foldr (fun x sum => g x + sum) 0 + g (f (cells.getD i default)) := by
  induction cells generalizing i with
  | nil => simp at h
  | cons x cells ih =>
      cases i with
      | zero =>
          simp only [List.modify_zero_cons, List.foldr_cons, List.getD_cons_zero]
          omega
      | succ i =>
          have hrest := ih i (by simpa using h)
          simp only [List.modify_succ_cons, List.foldr_cons, List.getD_cons_succ]
          omega

/-- Changing one object changes a sum by what that object contributes. -/
theorem total_modify (a : Arena α) (k : Key α) (f : α → α) (g : α → Nat)
    (h : k.index < a.size) :
    (a.modify k f).total g + g (a.get k) = a.total g + g (f (a.get k)) :=
  foldr_modify a.cells k.index f g h

/-- A change that keeps what objects contribute keeps the sum. -/
theorem total_modify_of_eq (a : Arena α) (k : Key α) (f : α → α) (g : α → Nat)
    (h : ∀ x, g (f x) = g x) :
    (a.modify k f).total g = a.total g := by
  by_cases hk : k.index < a.size
  · have htotal := total_modify a k f g hk
    rw [h] at htotal
    omega
  · rw [modify_of_size_le a k f (Nat.not_lt.mp hk)]

theorem le_total (a : Arena α) (k : Key α) (g : α → Nat) (hdefault : g default = 0) :
    g (a.get k) ≤ a.total g := by
  by_cases hk : k.index < a.size
  · have htotal := total_modify a k (fun _ => default) g hk
    omega
  · rw [get_of_size_le a k (Nat.not_lt.mp hk), hdefault]
    exact Nat.zero_le _

end Arena

end UsbTransfer
