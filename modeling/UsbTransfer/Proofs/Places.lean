import UsbTransfer.Custody
import Mathlib.Data.List.Dedup
import Mathlib.Data.List.Basic

/-!
# The places of references

A reference on an endpoint is owned by a named handle, a table, a batch, a handler of a batch, a
value attached to a batch, or an operation in progress.  `handlesOn` counts the owners in all six
kinds of places, and every change of `Custody` keeps that count equal to the endpoint's own.

An operation in progress may use a named handle without owning it.  When that handle loses its
name meanwhile, its reference is stranded: it is in flight until the use ends, and nobody else may
dispose of it.  The references in flight that are not stranded are spare.
-/

namespace UsbTransfer

namespace Batch

/-- The endpoints on which the handler of a batch owns references. -/
def captured (b : Batch) : List (Key Endpoint) :=
  (b.handler.map (·.captured)).getD []

/-- The endpoints on which the attached value of a batch owns references. -/
def attached (b : Batch) : List (Key Endpoint) :=
  (b.data.map (·.value.captured)).getD []

/-- The endpoints on which a batch and all that it has own references. -/
def owned (b : Batch) : List (Key Endpoint) :=
  b.endpoint.toList ++ b.captured ++ b.attached

end Batch

namespace State

/-- The names are other ones. -/
def setDirectory (s : State) (f : Directory → Directory) : State :=
  { s with directory := f s.directory }

/-- The references on an endpoint that named handles own. -/
def ownedByNames (s : State) (e : Key Endpoint) : Nat :=
  (s.directory.handles.values.map (·.endpoint)).count e

/-- The references on an endpoint that tables own. -/
def ownedByTables (s : State) (e : Key Endpoint) : Nat :=
  s.tables.total fun table => table.slots.values.count e

/-- The references on an endpoint that unreleased batches own. -/
def ownedByBatches (s : State) (e : Key Endpoint) : Nat :=
  s.batches.total fun batch => batch.endpoint.toList.count e

/-- The references on an endpoint that handlers own which are still in their batches. -/
def ownedByHandlers (s : State) (e : Key Endpoint) : Nat :=
  s.batches.total fun batch => batch.captured.count e

/-- The references on an endpoint that attached values own. -/
def ownedByData (s : State) (e : Key Endpoint) : Nat :=
  s.batches.total fun batch => batch.attached.count e

/-- The number of owners that there are of references on an endpoint, operations in progress
included. -/
def handlesOn (s : State) (e : Key Endpoint) : Nat :=
  s.ownedByNames e + s.ownedByTables e + s.ownedByBatches e + s.ownedByHandlers e +
    s.ownedByData e + s.inFlight.count e

/-- Every endpoint counts its owners. -/
def Counted (s : State) : Prop :=
  ∀ e, (s.endpoints.get e).references = s.handlesOn e

/-- The references in flight that belong to handles in use which lost their names. -/
def stranded (s : State) : List (Key Endpoint) :=
  (s.directory.loans.dedup.filter (· ∉ s.directory.handles.values)).map (·.endpoint)

/-- The references in flight on an endpoint that may be disposed of. -/
def spare (s : State) (e : Key Endpoint) : Nat :=
  s.inFlight.count e - s.stranded.count e

theorem spare_le_count (s : State) (e : Key Endpoint) :
    s.spare e ≤ s.inFlight.count e :=
  Nat.sub_le _ _

theorem mem_inFlight_of_spare {s : State} {e : Key Endpoint} (h : 0 < s.spare e) :
    e ∈ s.inFlight :=
  List.count_pos_iff.mp (Nat.lt_of_lt_of_le h (s.spare_le_count e))

theorem count_singleton_le_spare {s : State} {e : Key Endpoint} (h : 0 < s.spare e)
    (x : Key Endpoint) :
    [e].count x ≤ s.spare x := by
  by_cases hx : e = x
  · subst hx
    rw [List.count_singleton_self]
    exact h
  · rw [List.count_cons_of_ne hx]
    exact Nat.zero_le _

/-- An endpoint that anything owns a reference on has references. -/
theorem Counted.references_pos {s : State} (hs : s.Counted) {e : Key Endpoint}
    (h : 0 < s.handlesOn e) :
    0 < (s.endpoints.get e).references := by
  rw [hs e]
  exact h

theorem index_lt_of_references_pos {s : State} {e : Key Endpoint}
    (h : 0 < (s.endpoints.get e).references) :
    e.index < s.endpoints.size :=
  s.endpoints.index_lt_of_ne fun hblank => by simp [hblank, default] at h

theorem index_lt_of_endpoint {s : State} {b : Key Batch} {e : Key Endpoint}
    (h : (s.batches.get b).endpoint = some e) :
    b.index < s.batches.size :=
  s.batches.index_lt_of_ne fun hblank => by simp [hblank, default] at h

theorem index_lt_of_handler {s : State} {b : Key Batch} {handler : Handler}
    (h : (s.batches.get b).handler = some handler) :
    b.index < s.batches.size :=
  s.batches.index_lt_of_ne fun hblank => by simp [hblank, default] at h

theorem index_lt_of_data {s : State} {b : Key Batch} {a : Attachment}
    (h : (s.batches.get b).data = some a) :
    b.index < s.batches.size :=
  s.batches.index_lt_of_ne fun hblank => by simp [hblank, default] at h

theorem index_lt_of_slot {s : State} {t : Key Table} {i : Nat} {e : Key Endpoint}
    (h : (s.tables.get t).slots.get? i = some e) :
    t.index < s.tables.size :=
  s.tables.index_lt_of_ne fun hblank => by
    simp [hblank, default, Slots.empty, Slots.get?] at h

/-- A table that gives an endpoint away removes it from its slot, and from no other table. -/
theorem slots_uninstall {s s' : State} {t : Key Table} {slot : Nat} {e : Key Endpoint}
    (h : s.uninstall? t slot = some (e, s')) :
    (s.tables.get t).slots.remove? slot = some (e, (s'.tables.get t).slots) ∧
      ∀ t', t' ≠ t → (s'.tables.get t').slots = (s.tables.get t').slots := by
  obtain ⟨slots, hremove, rfl⟩ := uninstall?_eq_some h
  have ht := index_lt_of_slot (Slots.remove?_eq_some.mp hremove).1
  refine ⟨?_, fun _ hne => congrArg Table.slots (Arena.get_modify_of_ne _ _ hne)⟩
  simp only [Arena.get_modify_self _ _ _ ht]
  exact hremove

theorem index_lt_of_waker {s : State} {q : Key Queue} {waker : Waker}
    (h : (s.queues.get q).waker = some waker) :
    q.index < s.queues.size :=
  s.queues.index_lt_of_ne fun hblank => by simp [hblank, default] at h

theorem index_lt_of_pending {s : State} {q : Key Queue} {c : Completion} {rest : List Completion}
    (h : (s.queues.get q).pending = c :: rest) :
    q.index < s.queues.size :=
  s.queues.index_lt_of_ne fun hblank => by simp [hblank, default] at h

/-! ## Where an endpoint has an owner -/

theorem handlesOn_pos_of_spare {s : State} {e : Key Endpoint} (h : 0 < s.spare e) :
    0 < s.handlesOn e := by
  have hcount := s.spare_le_count e
  unfold handlesOn
  omega

theorem handlesOn_pos_of_named {s : State} {h : Handle}
    (hnamed : h ∈ s.directory.handles.values) :
    0 < s.handlesOn h.endpoint := by
  have hcount : 0 < s.ownedByNames h.endpoint :=
    List.count_pos_iff.mpr (List.mem_map_of_mem hnamed)
  unfold handlesOn
  omega

theorem handlesOn_pos_of_installed {s : State} {t : Key Table} {e : Key Endpoint}
    (h : e ∈ (s.tables.get t).slots.values) :
    0 < s.handlesOn e := by
  have htable : (s.tables.get t).slots.values.count e ≤ s.ownedByTables e :=
    s.tables.le_total t (fun table => table.slots.values.count e) rfl
  have hpos := List.count_pos_iff.mpr h
  unfold handlesOn
  omega

theorem handlesOn_pos_of_endpoint {s : State} {b : Key Batch} {e : Key Endpoint}
    (h : (s.batches.get b).endpoint = some e) :
    0 < s.handlesOn e := by
  have hbatch : (s.batches.get b).endpoint.toList.count e ≤ s.ownedByBatches e :=
    s.batches.le_total b (fun batch => batch.endpoint.toList.count e) rfl
  simp only [h, Option.toList_some, List.count_singleton_self] at hbatch
  unfold handlesOn
  omega

theorem handlesOn_pos_of_data {s : State} {b : Key Batch} {a : Attachment} {e : Key Endpoint}
    (h : (s.batches.get b).data = some a) (he : e ∈ a.value.captured) :
    0 < s.handlesOn e := by
  have hbatch : (s.batches.get b).attached.count e ≤ s.ownedByData e :=
    s.batches.le_total b (fun batch => batch.attached.count e) rfl
  have hpos := List.count_pos_iff.mpr he
  simp only [Batch.attached, h, Option.map_some, Option.getD_some] at hbatch
  unfold handlesOn
  omega

/-! ## How changes move owners -/

variable (s : State) (x : Key Endpoint)

theorem handlesOn_addEndpoint (bus : Key Bus) (descriptor : Descriptor) :
    (s.addEndpoint bus descriptor).handlesOn x =
      s.handlesOn x + if s.endpoints.nextKey = x then 1 else 0 := by
  simp only [handlesOn, ownedByNames, ownedByTables, ownedByBatches, ownedByHandlers,
    ownedByData, addEndpoint, List.count_cons, beq_iff_eq]
  omega

theorem handlesOn_gainReference (e : Key Endpoint) :
    (s.gainReference e).handlesOn x = s.handlesOn x + if e = x then 1 else 0 := by
  simp only [handlesOn, ownedByNames, ownedByTables, ownedByBatches, ownedByHandlers,
    ownedByData, gainReference, List.count_cons, beq_iff_eq]
  omega

theorem count_erase_of_mem {l : List (Key Endpoint)} {e : Key Endpoint} (h : e ∈ l) :
    (l.erase e).count x + (if e = x then 1 else 0) = l.count x := by
  have hpos : 0 < l.count e := List.count_pos_iff.mpr h
  rw [List.count_erase]
  by_cases hx : e = x
  · subst hx
    simp only [beq_self_eq_true, if_true]
    omega
  · simp [hx]

theorem handlesOn_loseReference {e : Key Endpoint} (h : e ∈ s.inFlight) :
    (s.loseReference e).handlesOn x + (if e = x then 1 else 0) = s.handlesOn x := by
  have hcount := count_erase_of_mem x h
  simp only [handlesOn, ownedByNames, ownedByTables, ownedByBatches, ownedByHandlers,
    ownedByData, loseReference]
  omega

variable {s}

theorem handlesOn_install {t : Key Table} {e : Key Endpoint} (h : e ∈ s.inFlight)
    (ht : t.index < s.tables.size) (hproper : (s.tables.get t).slots.Proper) :
    (s.install t e).handlesOn x = s.handlesOn x := by
  have hcount := count_erase_of_mem x h
  have htables := s.tables.total_modify t
    (fun table => { table with slots := table.slots.insert e })
    (fun table => table.slots.values.count x) ht
  simp only [(hproper.values_insert_perm e).count_eq, List.count_cons, beq_iff_eq] at htables
  simp only [handlesOn, ownedByNames, ownedByTables, ownedByBatches, ownedByHandlers,
    ownedByData, install]
  omega

theorem handlesOn_uninstall {s' : State} {t : Key Table} {slot : Nat} {e : Key Endpoint}
    (h : s.uninstall? t slot = some (e, s')) :
    s'.handlesOn x = s.handlesOn x := by
  obtain ⟨slots, hremove, rfl⟩ := State.uninstall?_eq_some h
  have hget := (Slots.remove?_eq_some.mp hremove).1
  have htables := s.tables.total_modify t (fun table => { table with slots := slots })
    (fun table => table.slots.values.count x) (index_lt_of_slot hget)
  simp only [(Slots.values_perm_of_remove? hremove).count_eq, List.count_cons,
    beq_iff_eq] at htables
  simp only [handlesOn, ownedByNames, ownedByTables, ownedByBatches, ownedByHandlers,
    ownedByData, List.count_cons, beq_iff_eq]
  omega

theorem handlesOn_clearTable (t : Key Table) :
    (s.clearTable t).handlesOn x = s.handlesOn x := by
  simp only [handlesOn, ownedByNames, ownedByTables, ownedByBatches, ownedByHandlers,
    ownedByData, clearTable, List.count_append]
  by_cases ht : t.index < s.tables.size
  · have htables := s.tables.total_modify t (fun table => { table with slots := .empty })
      (fun table => table.slots.values.count x) ht
    simp only [Slots.empty, Slots.values, List.filterMap_nil, List.count_nil] at htables ⊢
    omega
  · have hdefault : s.tables.get t = default :=
      s.tables.get_of_size_le t (Nat.not_lt.mp ht)
    rw [s.tables.modify_eq_self t _ (by rw [hdefault]; rfl), hdefault]
    simp [default, Slots.empty, Slots.values]

theorem handlesOn_addBatch {e : Key Endpoint} (h : e ∈ s.inFlight) :
    (s.addBatch e).handlesOn x = s.handlesOn x := by
  have hcount := count_erase_of_mem x h
  simp only [handlesOn, ownedByNames, ownedByTables, ownedByBatches, ownedByHandlers,
    ownedByData, addBatch, Arena.total_push, Option.toList_some, Batch.captured,
    Batch.attached, Option.map_none, Option.getD_none, List.count_nil, List.count_cons,
    beq_iff_eq]
  omega

/-- Changing a batch moves the owners by what the batch owns before and after. -/
theorem handlesOn_modifyBatch (b : Key Batch) (f : Batch → Batch)
    (hb : b.index < s.batches.size) (inFlight : List (Key Endpoint)) (serial : Nat) :
    State.handlesOn { s with
        batches := s.batches.modify b f, inFlight := inFlight, serial := serial } x +
        ((s.batches.get b).owned.count x + s.inFlight.count x) =
      s.handlesOn x + ((f (s.batches.get b)).owned.count x + inFlight.count x) := by
  have hendpoint := s.batches.total_modify b f (fun batch => batch.endpoint.toList.count x) hb
  have hcaptured := s.batches.total_modify b f (fun batch => batch.captured.count x) hb
  have hattached := s.batches.total_modify b f (fun batch => batch.attached.count x) hb
  simp only [handlesOn, ownedByNames, ownedByTables, ownedByBatches, ownedByHandlers,
    ownedByData, Batch.owned, List.count_append]
  omega

theorem handlesOn_detachEndpoint {b : Key Batch} {e : Key Endpoint}
    (h : (s.batches.get b).endpoint = some e) :
    (s.detachEndpoint b).handlesOn x = s.handlesOn x := by
  have hbatch := handlesOn_modifyBatch (s := s) x b
    (fun batch => { batch with endpoint := none }) (index_lt_of_endpoint h)
    ((s.batches.get b).endpoint.toList ++ s.inFlight) s.serial
  simp only [Batch.owned, Batch.captured, Batch.attached, List.count_append,
    Option.toList_none, List.count_nil] at hbatch
  unfold detachEndpoint
  omega

theorem handlesOn_setTransfer (b : Key Batch) (transfer : Transfer) :
    State.handlesOn { s with
      batches := s.batches.modify b fun batch => { batch with transfer := transfer } } x =
        s.handlesOn x := by
  by_cases hb : b.index < s.batches.size
  · have hbatch := handlesOn_modifyBatch (s := s) x b
      (fun batch => { batch with transfer := transfer }) hb s.inFlight s.serial
    simp only [Batch.owned, Batch.captured, Batch.attached] at hbatch
    omega
  · rw [s.batches.modify_of_size_le b _ (Nat.not_lt.mp hb)]

theorem handlesOn_detachHandler {b : Key Batch} {handler : Handler}
    (h : (s.batches.get b).handler = some handler) :
    (s.detachHandler b).handlesOn x = s.handlesOn x := by
  have hbatch := handlesOn_modifyBatch (s := s) x b
    (fun batch => { batch with handler := none }) (index_lt_of_handler h)
    ((s.batches.get b).captured ++ s.inFlight) s.serial
  simp only [Batch.owned, Batch.captured, Batch.attached, List.count_append,
    Option.map_none, Option.getD_none, List.count_nil] at hbatch
  unfold detachHandler
  omega

theorem handlesOn_detachData {b : Key Batch} {a : Attachment}
    (h : (s.batches.get b).data = some a) :
    (s.detachData b).handlesOn x = s.handlesOn x := by
  have hbatch := handlesOn_modifyBatch (s := s) x b
    (fun batch => { batch with data := none }) (index_lt_of_data h)
    ((s.batches.get b).attached ++ s.inFlight) s.serial
  simp only [Batch.owned, Batch.captured, Batch.attached, List.count_append,
    Option.map_none, Option.getD_none, List.count_nil] at hbatch
  unfold detachData
  omega

/-- Taking references out of a list, one after the other. -/
theorem count_foldl_erase {l captured : List (Key Endpoint)}
    (h : captured.count x ≤ l.count x) :
    (captured.foldl List.erase l).count x + captured.count x = l.count x := by
  induction captured generalizing l with
  | nil => rfl
  | cons e rest ih =>
      rw [List.foldl_cons]
      rw [List.count_cons] at h ⊢
      by_cases he : e = x
      · subst he
        have hmem : e ∈ l := by
          apply List.count_pos_iff.mp
          simp only [beq_self_eq_true, if_true] at h
          omega
        have herase := count_erase_of_mem e hmem
        simp only [beq_self_eq_true, if_true] at h herase ⊢
        have hrest := ih (l := l.erase e) (by omega)
        omega
      · have herase : (l.erase e).count x = l.count x := by
          rw [List.count_erase_of_ne (Ne.symm he)]
        simp only [beq_iff_eq, he, if_false, Nat.add_zero] at h ⊢
        rw [ih (herase ▸ h), herase]

theorem handlesOn_attachHandler {b : Key Batch} (hb : b.index < s.batches.size)
    (hnone : (s.batches.get b).handler = none) (action : HandlerAction)
    {captured : List (Key Endpoint)} (noisy : Bool)
    (hcaptured : captured.count x ≤ s.inFlight.count x) :
    (s.attachHandler b action captured noisy).handlesOn x = s.handlesOn x := by
  have hcount := count_foldl_erase x hcaptured
  have hbatch := handlesOn_modifyBatch (s := s) x b
    (fun batch => { batch with handler := some ⟨s.serial, action, captured, noisy⟩ }) hb
    (captured.foldl List.erase s.inFlight) (s.serial + 1)
  simp only [Batch.owned, Batch.captured, Batch.attached, List.count_append, hnone,
    Option.map_none, Option.map_some, Option.getD_none, Option.getD_some,
    List.count_nil] at hbatch
  simp only [attachHandler]
  omega

theorem handlesOn_attachData {b : Key Batch} (hb : b.index < s.batches.size)
    (hnone : (s.batches.get b).data = none) {value : DataValue}
    (hcaptured : value.captured.count x ≤ s.inFlight.count x) :
    (s.attachData b value).handlesOn x = s.handlesOn x := by
  have hcount := count_foldl_erase x hcaptured
  have hbatch := handlesOn_modifyBatch (s := s) x b
    (fun batch => { batch with data := some ⟨s.serial, value⟩ }) hb
    (value.captured.foldl List.erase s.inFlight) (s.serial + 1)
  simp only [Batch.owned, Batch.captured, Batch.attached, List.count_append, hnone,
    Option.map_none, Option.map_some, Option.getD_none, Option.getD_some,
    List.count_nil] at hbatch
  unfold attachData
  omega

/-- A value that can be changed owns nothing. -/
theorem captured_of_change? {value value' : DataValue} {change : DataChange}
    (h : value.change? change = some value') :
    value'.captured = [] ∧ value.captured = [] := by
  unfold DataValue.change? at h
  split at h <;> split at h <;> cases h <;> exact ⟨rfl, rfl⟩

theorem handlesOn_changeData {b : Key Batch} {a : Attachment} {change : DataChange}
    {value : DataValue} (hdata : (s.batches.get b).data = some a)
    (hchange : a.value.change? change = some value) :
    State.handlesOn { s with
      batches := s.batches.modify b fun batch =>
        { batch with data := some { a with value := value } } } x = s.handlesOn x := by
  have hcaptured := captured_of_change? hchange
  have hbatch := handlesOn_modifyBatch (s := s) x b
    (fun batch => { batch with data := some { a with value := value } })
    (index_lt_of_data hdata) s.inFlight s.serial
  simp only [Batch.owned, Batch.captured, Batch.attached, List.count_append, hdata,
    Option.map_some, Option.getD_some, hcaptured] at hbatch
  omega

theorem handlesOn_keepHandle (name : String) {e : Key Endpoint} (h : e ∈ s.inFlight) :
    (s.keepHandle name e).handlesOn x = s.handlesOn x := by
  have hcount := count_erase_of_mem x h
  have hinsert := ((s.directory.handles.values_insert_perm name ⟨s.serial, e⟩).map
    (·.endpoint)).count_eq x
  simp only [handlesOn, ownedByNames, ownedByTables, ownedByBatches, ownedByHandlers,
    ownedByData, keepHandle, List.count_append]
  rw [hinsert]
  cases hfind : s.directory.handles.find? name with
  | none =>
      rw [Names.erase_of_find?_eq_none hfind]
      simp only [List.map_cons, List.count_cons, beq_iff_eq, Option.map_none,
        Option.toList_none, List.count_nil]
      omega
  | some replaced =>
      have herase := ((Names.values_perm_of_find? hfind).map (·.endpoint)).count_eq x
      simp only [List.map_cons, List.count_cons, beq_iff_eq, Option.map_some,
        Option.toList_some, List.count_nil] at herase ⊢
      omega

theorem handlesOn_takeHandle (name : String) :
    (s.takeHandle name).handlesOn x = s.handlesOn x := by
  simp only [handlesOn, ownedByNames, ownedByTables, ownedByBatches, ownedByHandlers,
    ownedByData, takeHandle, List.count_append]
  cases hfind : s.directory.handles.find? name with
  | none =>
      rw [Names.erase_of_find?_eq_none hfind]
      simp
  | some taken =>
      have herase := ((Names.values_perm_of_find? hfind).map (·.endpoint)).count_eq x
      simp only [List.map_cons, List.count_cons, beq_iff_eq, Option.map_some,
        Option.toList_some, List.count_nil] at herase ⊢
      omega

theorem transferOf_detachHandler (b b' : Key Batch) :
    (s.detachHandler b).transferOf b' = s.transferOf b' :=
  s.batches.apply_get_modify b b' _ (·.transfer) fun _ => rfl

/-! ## Stranded references -/

/-- When one handle loses its name, the handles in use without a name are those from before and,
if it is in use, that one. -/
theorem count_nameless_of_removed {loans named named' : List Handle} {removed : Handle}
    (hnodup : loans.Nodup) (hremoved : removed ∈ named)
    (hmem : ∀ handle ∈ loans, (handle ∈ named' ↔ handle ∈ named ∧ handle ≠ removed)) :
    ((loans.filter (· ∉ named')).map (·.endpoint)).count x =
      ((loans.filter (· ∉ named)).map (·.endpoint)).count x +
        if removed ∈ loans ∧ removed.endpoint = x then 1 else 0 := by
  induction loans with
  | nil => simp
  | cons handle rest ih =>
      have hrest := ih (List.nodup_cons.mp hnodup).2
        fun other h => hmem other (List.mem_cons_of_mem _ h)
      have hhandle := hmem handle List.mem_cons_self
      by_cases heq : handle = removed
      · subst heq
        have hnot : handle ∉ rest := (List.nodup_cons.mp hnodup).1
        have hgone : handle ∉ named' := fun h => (hhandle.mp h).2 rfl
        simp only [List.filter_cons, hgone, hremoved, not_true, not_false_eq_true,
          decide_true, decide_false, if_true, List.map_cons, List.count_cons, beq_iff_eq,
          List.mem_cons_self, true_and, hnot, false_and, if_false] at hrest ⊢
        simpa using hrest
      · have hsame : handle ∈ named' ↔ handle ∈ named := by
          rw [hhandle]
          exact and_iff_left heq
        have hne : removed ≠ handle := fun h => heq h.symm
        simp only [List.filter_cons, hsame, List.mem_cons, hne, false_or]
        split
        · simp only [List.map_cons, List.count_cons]
          omega
        · exact hrest

/-- What a name stood for is stranded when it loses the name while it is in use. -/
theorem count_stranded_keepHandle {name : String} {e : Key Endpoint} {replaced : Handle}
    (hfind : s.directory.handles.find? name = some replaced)
    (hnodup : s.directory.handles.values.Nodup)
    (hloans : ∀ handle ∈ s.directory.loans, handle.serial < s.serial) :
    (s.keepHandle name e).stranded.count x =
      s.stranded.count x +
        if replaced ∈ s.directory.loans ∧ replaced.endpoint = x then 1 else 0 := by
  have hperm := Names.values_perm_of_find? hfind
  have hreplaced := Names.not_mem_erase_of_find? hnodup hfind
  have hmem : ∀ handle ∈ s.directory.loans.dedup,
      (handle ∈ (s.keepHandle name e).directory.handles.values ↔
        handle ∈ s.directory.handles.values ∧ handle ≠ replaced) := by
    intro handle hhandle
    have hnew : handle ≠ ⟨s.serial, e⟩ := by
      rintro rfl
      exact Nat.lt_irrefl _ (hloans _ (List.mem_dedup.mp hhandle))
    simp only [keepHandle]
    rw [(Names.values_insert_perm _ _ _).mem_iff, hperm.mem_iff, List.mem_cons, List.mem_cons]
    constructor
    · rintro (h | h)
      · exact absurd h hnew
      · exact ⟨Or.inr h, fun heq => hreplaced (heq ▸ h)⟩
    · rintro ⟨h | h, hne⟩
      · exact absurd h hne
      · exact Or.inr h
  have hcount := count_nameless_of_removed x (List.nodup_dedup _)
    (Names.mem_values_of_find? hfind) hmem
  simpa [stranded, List.mem_dedup, keepHandle] using hcount

theorem stranded_keepHandle_of_fresh {name : String} {e : Key Endpoint}
    (hfind : s.directory.handles.find? name = none)
    (hloans : ∀ handle ∈ s.directory.loans, handle.serial < s.serial) :
    (s.keepHandle name e).stranded = s.stranded := by
  have hmem : ∀ handle ∈ s.directory.loans,
      (handle ∈ (s.keepHandle name e).directory.handles.values ↔
        handle ∈ s.directory.handles.values) := by
    intro handle hhandle
    have hnew : handle ≠ ⟨s.serial, e⟩ := by
      rintro rfl
      exact Nat.lt_irrefl _ (hloans _ hhandle)
    simp only [keepHandle]
    rw [(Names.values_insert_perm _ _ _).mem_iff, Names.erase_of_find?_eq_none hfind,
      List.mem_cons]
    exact or_iff_right hnew
  unfold stranded
  congr 1
  apply List.filter_congr
  intro handle hhandle
  simp [hmem handle (List.mem_dedup.mp hhandle)]

/-- A handle that nobody uses is not missed when it loses its name. -/
theorem stranded_takeHandle {name : String} {taken : Handle}
    (hfind : s.directory.handles.find? name = some taken)
    (hloan : taken ∉ s.directory.loans) :
    (s.takeHandle name).stranded = s.stranded := by
  have hperm := Names.values_perm_of_find? hfind
  unfold stranded
  congr 1
  apply List.filter_congr
  intro handle hhandle
  have hne : handle ≠ taken := by
    rintro rfl
    exact hloan (List.mem_dedup.mp hhandle)
  have hsame : handle ∈ (s.directory.handles.erase name).values ↔
      handle ∈ s.directory.handles.values := by
    rw [hperm.mem_iff, List.mem_cons]
    exact (or_iff_right hne).symm
  exact decide_eq_decide.mpr (not_congr hsame)

theorem stranded_lend {handle : Handle} (hhandle : handle ∈ s.directory.handles.values) :
    (s.setDirectory fun d => { d with loans := handle :: d.loans }).stranded = s.stranded := by
  unfold stranded setDirectory
  by_cases hloan : handle ∈ s.directory.loans
  · rw [List.dedup_cons_of_mem hloan]
  · rw [List.dedup_cons_of_notMem hloan]
    simp [hhandle]

/-- The end of the last use of a handle without a name frees its reference. -/
theorem count_stranded_unlend {handle : Handle} (hhandle : handle ∈ s.directory.loans) :
    s.stranded.count x =
      (s.setDirectory fun d => { d with loans := d.loans.erase handle }).stranded.count x +
        if handle ∉ s.directory.loans.erase handle ∧
          handle ∉ s.directory.handles.values ∧ handle.endpoint = x then 1 else 0 := by
  unfold stranded setDirectory
  have hmem : ∀ other, other ∈ s.directory.loans ↔
      other = handle ∨ other ∈ s.directory.loans.erase handle := by
    intro other
    rw [(List.perm_cons_erase hhandle).mem_iff, List.mem_cons]
  by_cases hagain : handle ∈ s.directory.loans.erase handle
  · have hperm : (s.directory.loans.erase handle).dedup.Perm s.directory.loans.dedup := by
      rw [List.perm_ext_iff_of_nodup (List.nodup_dedup _) (List.nodup_dedup _)]
      intro other
      rw [List.mem_dedup, List.mem_dedup, hmem]
      exact ⟨Or.inr, fun h => h.elim (fun heq => heq ▸ hagain) id⟩
    rw [if_neg (fun h => h.1 hagain), Nat.add_zero]
    exact (((hperm.filter _).map _).count_eq x).symm
  · have hperm : s.directory.loans.dedup.Perm
        (handle :: (s.directory.loans.erase handle).dedup) := by
      rw [List.perm_ext_iff_of_nodup (List.nodup_dedup _)
        (List.nodup_cons.mpr ⟨fun h => hagain (List.mem_dedup.mp h), List.nodup_dedup _⟩)]
      intro other
      rw [List.mem_dedup, List.mem_cons, List.mem_dedup, hmem]
    rw [((hperm.filter _).map _).count_eq x, List.filter_cons]
    by_cases hnamed : handle ∈ s.directory.handles.values
    · simp [hnamed]
    · simp [hnamed, hagain, List.count_cons]

end State

end UsbTransfer
