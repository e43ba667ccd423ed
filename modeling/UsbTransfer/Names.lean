/-!
# Names

A finite map from names to values.  The names stand in the order of their code points, so the
first one is well defined.
-/

namespace UsbTransfer

/-- Values under names. -/
structure Names (α : Type) where
  entries : List (String × α)

namespace Names

variable {α : Type}

/-- No name at all. -/
def empty : Names α := ⟨[]⟩

/-- The value under a name. -/
def find? (m : Names α) (name : String) : Option α :=
  (m.entries.find? (·.1 = name)).map (·.2)

/-- Forgets a name. -/
def erase (m : Names α) (name : String) : Names α :=
  ⟨m.entries.eraseP (·.1 = name)⟩

/-- Puts an entry before the first entry with a later name. -/
def place (entry : String × α) : List (String × α) → List (String × α)
  | [] => [entry]
  | other :: rest => if entry.1 < other.1 then entry :: other :: rest else other :: place entry rest

/-- Puts a value under a name, in the place of the value that was there. -/
def insert (m : Names α) (name : String) (value : α) : Names α :=
  ⟨place (name, value) (m.erase name).entries⟩

/-- The values in the order of their names. -/
def values (m : Names α) : List α :=
  m.entries.map (·.2)

/-- The first name. -/
def first? (m : Names α) : Option String :=
  m.entries.head?.map (·.1)

theorem place_perm (entry : String × α) (entries : List (String × α)) :
    (place entry entries).Perm (entry :: entries) := by
  induction entries with
  | nil => exact List.Perm.refl _
  | cons other rest ih =>
      simp only [place]
      split
      · exact List.Perm.refl _
      · exact (ih.cons other).trans (List.Perm.swap entry other rest)

/-- Putting a value under a name adds it to those under the other names. -/
theorem values_insert_perm (m : Names α) (name : String) (value : α) :
    (m.insert name value).values.Perm (value :: (m.erase name).values) :=
  (place_perm (name, value) (m.erase name).entries).map Prod.snd

theorem erase_of_find?_eq_none {m : Names α} {name : String} (h : m.find? name = none) :
    m.erase name = m := by
  obtain ⟨entries⟩ := m
  simp only [find?, Option.map_eq_none_iff, List.find?_eq_none] at h
  simp only [erase, mk.injEq]
  exact List.eraseP_of_forall_not h

/-- What is found under a name is what forgetting the name takes away. -/
theorem values_perm_of_find? {m : Names α} {name : String} {value : α}
    (h : m.find? name = some value) :
    m.values.Perm (value :: (m.erase name).values) := by
  obtain ⟨entries⟩ := m
  simp only [find?, values, erase] at h ⊢
  induction entries with
  | nil => simp at h
  | cons entry rest ih =>
      by_cases hname : entry.1 = name
      · simp only [List.find?_cons, hname, decide_true, Option.map_some,
          Option.some.injEq] at h
        subst h
        simp [hname]
      · simp only [List.find?_cons, hname, decide_false] at h
        simp only [List.eraseP_cons, hname, decide_false, cond_false, List.map_cons]
        exact ((ih h).cons entry.2).trans (List.Perm.swap value entry.2 _)

theorem mem_values_of_find? {m : Names α} {name : String} {value : α}
    (h : m.find? name = some value) :
    value ∈ m.values :=
  (values_perm_of_find? h).mem_iff.mpr List.mem_cons_self

/-- To forget a name takes nothing but its value away. -/
theorem values_erase_sublist (m : Names α) (name : String) :
    (m.erase name).values.Sublist m.values :=
  List.eraseP_sublist.map Prod.snd

theorem values_erase_subset (m : Names α) (name : String) :
    (m.erase name).values ⊆ m.values :=
  (m.values_erase_sublist name).subset

theorem values_insert_subset (m : Names α) (name : String) (value : α) :
    (m.insert name value).values ⊆ value :: m.values := by
  intro other hother
  rcases List.mem_cons.mp ((values_insert_perm m name value).mem_iff.mp hother) with rfl | h
  · exact List.mem_cons_self
  · exact List.mem_cons_of_mem _ (values_erase_subset m name h)

/-- Where no value has two names, forgetting a name loses its value. -/
theorem not_mem_erase_of_find? {m : Names α} {name : String} {value : α}
    (hm : m.values.Nodup) (h : m.find? name = some value) :
    value ∉ (m.erase name).values :=
  (List.nodup_cons.mp ((values_perm_of_find? h).nodup_iff.mp hm)).1

theorem nodup_erase {m : Names α} (hm : m.values.Nodup) (name : String) :
    (m.erase name).values.Nodup :=
  (m.values_erase_sublist name).nodup hm

theorem nodup_insert {m : Names α} (hm : m.values.Nodup) (name : String) {value : α}
    (hvalue : value ∉ m.values) :
    (m.insert name value).values.Nodup := by
  rw [(values_insert_perm m name value).nodup_iff, List.nodup_cons]
  exact ⟨fun h => hvalue (values_erase_subset m name h), nodup_erase hm name⟩

end Names

end UsbTransfer
