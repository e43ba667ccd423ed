import Mathlib.Data.String.Basic
import UsbTransfer.Proofs.Sessions

/-!
# Names in order

The names of batches stand in the order of their code points, and no name stands twice.  A batch
that is taken from its name and put back therefore stands where it stood, and nothing tells that it
was away.
-/

namespace UsbTransfer

namespace Names

variable {α : Type} {m : Names α} {name : String} {value : α}

/-- The names stand in order, each of them once. -/
def Ordered (m : Names α) : Prop :=
  m.entries.Pairwise fun a b => a.1 < b.1

theorem ordered_empty : (empty : Names α).Ordered :=
  .nil

theorem Ordered.erase (h : m.Ordered) (name : String) : (m.erase name).Ordered :=
  h.sublist List.eraseP_sublist

theorem Ordered.find?_erase (h : m.Ordered) (name : String) : (m.erase name).find? name = none := by
  obtain ⟨entries⟩ := m
  simp only [find?, Names.erase, Option.map_eq_none_iff]
  induction entries with
  | nil => rfl
  | cons entry rest ih =>
      obtain ⟨hlater, hrest⟩ := List.pairwise_cons.mp h
      by_cases hname : entry.1 = name
      · rw [List.eraseP_cons_of_pos (by simpa using hname), List.find?_eq_none]
        intro other hother heq
        have hlt := hlater other hother
        rw [hname, of_decide_eq_true heq] at hlt
        exact lt_irrefl _ hlt
      · rw [List.eraseP_cons_of_neg (by simpa using hname),
          List.find?_cons_of_neg (by simpa using hname)]
        exact ih hrest

/-- An entry finds its place among others. -/
theorem place_ordered {entry : String × α} {entries : List (String × α)}
    (h : entries.Pairwise fun a b => a.1 < b.1) (hnew : ∀ other ∈ entries, other.1 ≠ entry.1) :
    (place entry entries).Pairwise fun a b => a.1 < b.1 := by
  induction entries with
  | nil => exact List.pairwise_singleton _ _
  | cons other rest ih =>
      obtain ⟨hlater, hrest⟩ := List.pairwise_cons.mp h
      simp only [place]
      split
      · next hlt =>
          refine List.pairwise_cons.mpr ⟨fun x hx => ?_, h⟩
          rcases List.mem_cons.mp hx with rfl | hx
          · exact hlt
          · exact hlt.trans (hlater x hx)
      · next hge =>
          have hlt : other.1 < entry.1 :=
            lt_of_le_of_ne (not_lt.mp hge) (hnew other List.mem_cons_self)
          refine List.pairwise_cons.mpr
            ⟨fun x hx => ?_, ih hrest fun x hx => hnew x (List.mem_cons_of_mem other hx)⟩
          rcases List.mem_cons.mp ((place_perm entry rest).mem_iff.mp hx) with rfl | hx
          · exact hlt
          · exact hlater x hx

theorem Ordered.insert (h : m.Ordered) (name : String) (value : α) :
    (m.insert name value).Ordered := by
  refine place_ordered (h.erase name) fun other hother heq => ?_
  have hnone := h.find?_erase name
  simp only [find?, Option.map_eq_none_iff, List.find?_eq_none] at hnone
  exact hnone other hother (by simpa using heq)

/-- What is put back under its name stands where it stood. -/
theorem Ordered.insert_erase (h : m.Ordered) (hfind : m.find? name = some value) :
    (m.erase name).insert name value = m := by
  have herase : (m.erase name).erase name = m.erase name :=
    erase_of_find?_eq_none (h.find?_erase name)
  unfold Names.insert
  rw [herase]
  clear herase
  obtain ⟨entries⟩ := m
  simp only [find?, Names.erase, mk.injEq] at hfind ⊢
  induction entries with
  | nil => simp at hfind
  | cons entry rest ih =>
      obtain ⟨hlater, hrest⟩ := List.pairwise_cons.mp h
      by_cases hname : entry.1 = name
      · rw [List.find?_cons_of_pos (by simpa using hname), Option.map_some,
          Option.some.injEq] at hfind
        subst hname hfind
        rw [List.eraseP_cons_of_pos (by simp)]
        cases rest with
        | nil => rfl
        | cons other rest => exact if_pos (hlater other List.mem_cons_self)
      · rw [List.find?_cons_of_neg (by simpa using hname)] at hfind
        rw [List.eraseP_cons_of_neg (by simpa using hname)]
        obtain ⟨found, hfound, -⟩ := Option.map_eq_some_iff.mp hfind
        have hlt : entry.1 < name := by
          have hfoundname : found.1 = name := by simpa using List.find?_some hfound
          exact hfoundname ▸ hlater found (List.mem_of_find?_eq_some hfound)
        rw [place, if_neg (not_lt.mpr hlt.le), ih hrest hfind]

end Names

/-- The names of batches stand in order. -/
def State.Ordered (s : State) : Prop :=
  s.directory.batches.Ordered

theorem Change.ordered {hands : Hands} {w w' : World} (h : Change hands w w')
    (hw : w.state.Ordered) : w'.state.Ordered := by
  cases h with
  | nameBatch name => exact Names.Ordered.insert hw name _
  | unnameBatch => exact Names.Ordered.erase hw _
  | rename _ hbatches =>
      unfold State.Ordered at hw ⊢
      exact hbatches.symm ▸ hw
  | uninstall hslot =>
      obtain ⟨_, _, rfl⟩ := State.uninstall?_eq_some hslot
      exact hw
  | _ => exact hw

/-- In every world in which user code finds itself, the names of batches stand in order. -/
theorem Session.Reachable.ordered {w : World} (h : Reachable w) : w.state.Ordered :=
  kept_of_steps (I := (·.state.Ordered)) (fun _ _ => Change.ordered) h.changes Names.ordered_empty

end UsbTransfer
