import UsbTransfer.Proofs.LifecycleSteps.Sessions
import UsbTransfer.Proofs.Exclusion

/-!
# What a table holds by the record

The history tells which endpoints are in a table: those that were registered and not given back
since.  Where user code gets control, these are in its slots and no others, each of them once.  The
vacated slots are kept beside the occupied ones, and together they are all slots.
-/

namespace UsbTransfer

namespace Slots

variable {α : Type}

/-- Every slot is vacant or occupied, and none is both. -/
theorem Proper.partition {s : Slots α} (hs : s.Proper) :
    (s.vacated ++ s.entries.map (·.1)).Perm (List.range s.cells.length) := by
  have hoccupied : ∀ i, i ∈ s.entries.map (·.1) ↔ ∃ value, s.cells[i]? = some (some value) := by
    intro i
    simp only [List.mem_map, Prod.exists, mem_entries, get?_eq_some, exists_and_right,
      exists_eq_right]
  have hentries : (s.entries.map (·.1)).Nodup :=
    List.pairwise_map.mpr (s.entries_pairwise.imp fun h => Nat.ne_of_lt h)
  have hdisjoint : List.Disjoint s.vacated (s.entries.map (·.1)) := by
    intro i hvacated hi
    obtain ⟨value, hvalue⟩ := (hoccupied i).mp hi
    rw [(hs.mem_vacated i).mp hvacated] at hvalue
    cases hvalue
  refine (List.perm_ext_iff_of_nodup (hs.nodup.append hentries hdisjoint)
    List.nodup_range).mpr fun i => ?_
  rw [List.mem_append, hs.mem_vacated, hoccupied, List.mem_range]
  constructor
  · rintro (hi | ⟨value, hi⟩) <;> exact (List.getElem?_eq_some_iff.mp hi).1
  · intro hi
    rw [List.getElem?_eq_getElem hi]
    cases s.cells[i] with
    | none => exact .inl rfl
    | some value => exact .inr ⟨value, rfl⟩

end Slots

namespace Table

/-- The endpoints that a table holds by the record: those that were registered and not given back
since, the latest first. -/
def listed (t : Key Table) : List Moment → List (Key Endpoint)
  | [] => []
  | m :: earlier =>
      match m.occurrence with
      | .registered t' e => if t' = t then e :: listed t earlier else listed t earlier
      | .unregistered t' _ e => if t' = t then (listed t earlier).erase e else listed t earlier
      | .deviceUnregistered t' address _ =>
          if t' = t then (listed t earlier).filter fun e => (m.state.targetOf e).address ≠ address
          else listed t earlier
      | .tableGivenUp t' => if t' = t then [] else listed t earlier
      | _ => listed t earlier

/-- In an exclusive table nothing is installed twice. -/
theorem Exclusive.nodup {targetOf : Key Endpoint → Target} {t : Table}
    (h : Exclusive targetOf t) :
    t.slots.values.Nodup := by
  rw [← Slots.entries_map_snd]
  refine List.pairwise_map.mpr ?_
  refine t.slots.entries_pairwise.imp_of_mem fun {a b} ha hb hlt heq => ?_
  have hslot := h a.1 b.1 a.2 b.2 (Slots.mem_entries.mp ha) (Slots.mem_entries.mp hb)
    (heq ▸ .refl _)
  omega

end Table

/-- The slots of all tables are in order and hold what the record tells. -/
structure World.Listed (w : World) : Prop where
  proper : ∀ t, (w.state.tables.get t).slots.Proper
  perm : ∀ t, (w.state.tables.get t).slots.values.Perm (Table.listed t w.history)

/-- Only tables that are there register endpoints. -/
def World.Registers (w : World) : Prop :=
  ∀ m ∈ w.history, ∀ t e, m.occurrence = .registered t e → t.index < m.state.tables.size

variable {hands : Hands} {w w' : World}

theorem Change.registers (h : Change hands w w') (hsound : w.state.Sound) (hw : w.Registers) :
    w'.Registers := by
  -- the new moments register nothing, unless a table takes an endpoint
  have hnew : ∀ since, w'.history = since ++ w.history →
      (∀ m ∈ since, ∀ t e, m.occurrence ≠ .registered t e) → w'.Registers := by
    intro since hsince hnone m hm t e ho
    rcases List.mem_append.mp (hsince ▸ hm) with hm | hm
    · exact absurd ho (hnone m hm t e)
    · exact hw m hm t e ho
  cases h with
  | consult | addBus | addTable | addQueue | rename | leaveWaker | edit | detachHandler
  | detachData | changeData | keepHandle | takeHandle | lend | unlend | nameBatch | unnameBatch
  | uninstall => exact hw
  | createEndpoint | acquire | release | setToggle | advanceToggle | push | handOut | wake
  | build | giveUpEndpoint | handOver | attachHandler | attachData | giveUpTable =>
      exact hnew [_] rfl (by simp)
  | releaseLast => exact hnew [_, _] rfl (by simp)
  | note v hfits =>
      refine hnew [_] rfl ?_
      simp only [List.mem_singleton, forall_eq]
      rintro t e rfl
      exact hfits.elim
  | @install t e hspare hnamed hlookup =>
      intro m hm t' e' ho
      rcases List.mem_cons.mp hm with rfl | hm
      · obtain ⟨rfl, -⟩ := Occurrence.registered.inj ho
        simpa [View.of] using hsound.tablesExist _ hnamed
      · exact hw m hm t' e' ho

theorem Changes.registers (h : Changes Hands.empty World.empty w) : w.Registers :=
  Changes.kept (fun _ _ => Change.registers) h State.sound_empty fun _ hm =>
    absurd hm List.not_mem_nil

theorem listed_empty : World.empty.Listed where
  proper := fun _ => Slots.proper_empty
  perm := fun _ => List.Perm.refl _

/-- A step leaves a table as it is by the record. -/
theorem LifecycleStep.listed (h : LifecycleStep w w') (hregisters : w'.Registers) (hw : w.Listed) :
    w'.Listed := by
  have hkept : (∀ t, (w'.state.tables.get t).slots = (w.state.tables.get t).slots) →
      (∀ t, Table.listed t w'.history = Table.listed t w.history) → w'.Listed :=
    fun hslots hlisted =>
      ⟨fun t => hslots t ▸ hw.proper t, fun t => by rw [hslots, hlisted]; exact hw.perm t⟩
  have hnote : ∀ {o : Occurrence} {s : State}, w'.history = ⟨o, s⟩ :: w.history →
      (∀ t, (w'.state.tables.get t).slots = (w.state.tables.get t).slots) →
      (o.Mere ∨ o.handled? ≠ none ∨ o.asked? ≠ none) → w'.Listed := by
    intro o s hhistory hslots ho
    refine hkept hslots fun t => ?_
    rw [hhistory]
    cases o <;> simp_all [Table.listed, Occurrence.Mere, Occurrence.handled?, Occurrence.asked?]
  -- one table alone is changed
  have hone : ∀ {t : Key Table} {slots : Slots (Key Endpoint)},
      (w'.state.tables.get t).slots = slots →
      (∀ t', t' ≠ t → (w'.state.tables.get t').slots = (w.state.tables.get t').slots) →
      (∀ t', t' ≠ t → Table.listed t' w'.history = Table.listed t' w.history) →
      slots.Proper → slots.values.Perm (Table.listed t w'.history) → w'.Listed := by
    rintro t slots hslots hothers hlisted hproper hperm
    refine ⟨fun t' => ?_, fun t' => ?_⟩ <;> by_cases heq : t' = t
    · subst heq
      exact hslots ▸ hproper
    · rw [hothers t' heq]
      exact hw.proper t'
    · subst heq
      exact hslots ▸ hperm
    · rw [hothers t' heq, hlisted t' heq]
      exact hw.perm t'
  cases h with
  | alter hcalm => exact hkept hcalm.slots fun _ => rfl
  | name | shed => exact hkept (fun _ => rfl) fun _ => rfl
  | note hmere => exact hnote rfl (fun _ => rfl) (.inl hmere)
  | call hasked => exact hnote rfl (fun _ => rfl) (.inr (.inr (by simp [hasked])))
  | build | attach | invoke | perish | finish =>
      exact hnote rfl (fun _ => rfl) (.inr (.inl (by simp [Occurrence.handled?])))
  | giveUp => exact hkept (fun _ => rfl) fun _ => rfl
  | install t e =>
      have ht : t.index < w.state.tables.size := hregisters _ List.mem_cons_self t e rfl
      refine hone (congrArg Table.slots (Arena.get_modify_self _ _ _ ht))
        (fun t' hne => congrArg Table.slots (Arena.get_modify_of_ne _ _ hne))
        (fun t' hne => ?_) ((hw.proper t).insert e) ?_
      · simp [Table.listed, hne.symm]
      · simp only [World.alter_history, World.note_history, Table.listed, if_true]
        exact ((hw.proper t).values_insert_perm e).trans ((hw.perm t).cons e)
  | @uninstall t slot e s target hslot =>
      obtain ⟨hremove, hothers⟩ := State.slots_uninstall hslot
      refine hone rfl hothers (fun t' hne => ?_) ((hw.proper t).remove hremove) ?_
      · simp [Table.listed, hne.symm]
      · simp only [World.alter_history, World.note_history, Table.listed, if_true]
        have hperm := ((Slots.values_perm_of_remove? hremove).symm.trans (hw.perm t)).erase e
        simpa using hperm
  | @uninstallDevice t address count s hvalues hothers _ _ _ _ hproper =>
      refine hone rfl hothers (fun t' hne => ?_) (hproper (hw.proper t)) ?_
      · simp [Table.listed, hne.symm]
      · simp only [World.alter_history, World.note_history, Table.listed, if_true]
        exact hvalues.trans ((hw.perm t).filter _)
  | giveUpTable t =>
      have hcleared : ((w.state.clearTable t).tables.get t).slots = .empty := by
        simp only [State.clearTable, Arena.get_modify, true_and]
        split
        · rfl
        · next ht =>
            rw [Arena.get_of_size_le _ _ (Nat.not_lt.mp ht)]
            rfl
      refine hone hcleared (fun t' hne => congrArg Table.slots (Arena.get_modify_of_ne _ _ hne))
        (fun t' hne => ?_) Slots.proper_empty ?_
      · simp [Table.listed, hne.symm]
      · simp only [World.alter_history, World.note_history, Table.listed, if_true]
        exact List.Perm.refl _

theorem LifecycleSteps.listed (h : LifecycleSteps World.empty w) (hregisters : w.Registers) :
    w.Listed := by
  induction h with
  | refl => exact listed_empty
  | @tail w w' _ hstep ih =>
      refine hstep.listed hregisters (ih fun m hm => hregisters m ?_)
      exact hstep.suffix.subset hm

end UsbTransfer
