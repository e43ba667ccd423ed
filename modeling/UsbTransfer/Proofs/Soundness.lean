import UsbTransfer.Proofs.Changes

/-!
# Sound states

What holds of every state in which user code can find itself.  An endpoint counts its owners,
nothing is locked, tables and names are in order, and a named batch has its endpoint.  Every change
keeps this, so every sequence of changes does.
-/

namespace UsbTransfer

/-- The handler and the value of a batch got their serial numbers before the given one. -/
def Batch.SerialsBelow (batch : Batch) (serial : Nat) : Prop :=
  (∀ handler, batch.handler = some handler → handler.serial < serial) ∧
    ∀ a, batch.data = some a → a.serial < serial

theorem Batch.SerialsBelow.mono {batch : Batch} {serial serial' : Nat}
    (h : batch.SerialsBelow serial) (hle : serial ≤ serial') :
    batch.SerialsBelow serial' :=
  ⟨fun handler hhandler => Nat.lt_of_lt_of_le (h.1 handler hhandler) hle,
    fun a ha => Nat.lt_of_lt_of_le (h.2 a ha) hle⟩

/-- The state is in order, as user code may expect it to be. -/
structure State.Sound (s : State) : Prop where
  counted : s.Counted
  /-- What is stranded is in flight. -/
  backed : ∀ e, s.stranded.count e ≤ s.inFlight.count e
  tablesFree : ∀ t, (s.tables.get t).lock = .free
  queuesFree : ∀ q, (s.queues.get q).lock = .free
  slotsProper : ∀ t, (s.tables.get t).slots.Proper
  handlesNodup : s.directory.handles.values.Nodup
  handlesOld : ∀ handle ∈ s.directory.handles.values, handle.serial < s.serial
  loansOld : ∀ handle ∈ s.directory.loans, handle.serial < s.serial
  tablesNodup : s.directory.tables.values.Nodup
  batchesNodup : s.directory.batches.values.Nodup
  batchesLive : ∀ b ∈ s.directory.batches.values, (s.batches.get b).endpoint.isSome
  busesExist : ∀ bus ∈ s.directory.buses.values, bus.index < s.buses.size
  tablesExist : ∀ t ∈ s.directory.tables.values, t.index < s.tables.size
  queuesExist : ∀ q ∈ s.directory.queues.values, q.index < s.queues.size
  onBuses : ∀ e : Key Endpoint, e.index < s.endpoints.size → (s.busOf e).index < s.buses.size
  /-- The description that a batch copied is that of its endpoint. -/
  described : ∀ b e, (s.batches.get b).endpoint = some e →
    (s.transferOf b).descriptor = (s.endpoints.get e).descriptor
  forwards : ∀ b handler, (s.batches.get b).handler = some handler → s.Forwards handler.action
  itemsOld : ∀ b, (s.batches.get b).SerialsBelow s.serial

namespace State

theorem sound_empty : State.empty.Sound where
  counted := by
    intro e
    simp [handlesOn, ownedByNames, ownedByTables, ownedByBatches, ownedByHandlers, ownedByData,
      State.empty, Arena.empty, Arena.get, Arena.total, Directory.empty, Names.empty,
      Names.values, default]
  backed := by simp [stranded, State.empty, Directory.empty]
  tablesFree := by simp [State.empty, Arena.empty, Arena.get, default]
  queuesFree := by simp [State.empty, Arena.empty, Arena.get, default]
  slotsProper := fun _ => Slots.proper_empty
  handlesNodup := List.nodup_nil
  handlesOld := by simp [State.empty, Directory.empty, Names.empty, Names.values]
  loansOld := by simp [State.empty, Directory.empty]
  tablesNodup := List.nodup_nil
  batchesNodup := List.nodup_nil
  batchesLive := by simp [State.empty, Directory.empty, Names.empty, Names.values]
  busesExist := by simp [State.empty, Directory.empty, Names.empty, Names.values]
  tablesExist := by simp [State.empty, Directory.empty, Names.empty, Names.values]
  queuesExist := by simp [State.empty, Directory.empty, Names.empty, Names.values]
  onBuses := by simp [State.empty, Arena.empty, Arena.size]
  described := by simp [State.empty, Arena.empty, Arena.get, default]
  forwards := by simp [State.empty, Arena.empty, Arena.get, default]
  itemsOld := by simp [Batch.SerialsBelow, State.empty, Arena.empty, Arena.get, default]

namespace Sound

variable {s : State}

/-! ## Buses, toggles and queues -/

theorem setPlan (hs : s.Sound) (bus : Key Bus) (plan : BusPlan Script) :
    (s.setPlan bus plan).Sound :=
  { hs with
    busesExist := by simpa [State.setPlan] using hs.busesExist
    onBuses := by simpa [State.setPlan, State.busOf] using hs.onBuses }

theorem addBus (hs : s.Sound) (bus : Bus) :
    State.Sound { s with buses := s.buses.push bus } :=
  { hs with
    busesExist := by
      intro other hother
      rw [Arena.size_push]
      exact Nat.lt_succ_of_lt (hs.busesExist other hother)
    onBuses := by
      intro e he
      rw [Arena.size_push]
      exact Nat.lt_succ_of_lt (hs.onBuses e he) }

/-- Whatever keeps the bus of an endpoint keeps it on a bus that exists. -/
theorem onBuses_modify (hs : s.Sound) (e : Key Endpoint) (f : Endpoint → Endpoint)
    (hbus : ∀ x, (f x).bus = x.bus) (x : Key Endpoint)
    (hx : x.index < (s.endpoints.modify e f).size) :
    ((s.endpoints.modify e f).get x).bus.index < s.buses.size := by
  rw [Arena.size_modify] at hx
  rw [s.endpoints.apply_get_modify e x f (·.bus) hbus]
  exact hs.onBuses x hx

/-- Whatever keeps the description of an endpoint keeps that of its batches right. -/
theorem described_modify (hs : s.Sound) (e : Key Endpoint) (f : Endpoint → Endpoint)
    (hdescriptor : ∀ x, (f x).descriptor = x.descriptor) (b : Key Batch) (x : Key Endpoint)
    (hx : (s.batches.get b).endpoint = some x) :
    (s.transferOf b).descriptor = ((s.endpoints.modify e f).get x).descriptor := by
  rw [s.endpoints.apply_get_modify e x f (·.descriptor) hdescriptor]
  exact hs.described b x hx

/-- Changing what does not count references keeps the order of a state. -/
theorem modifyEndpoint (hs : s.Sound) (e : Key Endpoint) (f : Endpoint → Endpoint)
    (hreferences : ∀ x, (f x).references = x.references)
    (hdescriptor : ∀ x, (f x).descriptor = x.descriptor) (hbus : ∀ x, (f x).bus = x.bus) :
    State.Sound { s with endpoints := s.endpoints.modify e f } :=
  { hs with
    counted := by
      intro x
      rw [s.endpoints.apply_get_modify e x f (·.references) hreferences]
      exact hs.counted x
    onBuses := hs.onBuses_modify e f hbus
    described := hs.described_modify e f hdescriptor }

theorem addQueue (hs : s.Sound) :
    State.Sound { s with queues := s.queues.push default } :=
  { hs with
    queuesFree := by
      intro q
      rw [Arena.get_push]
      split
      · rfl
      · exact hs.queuesFree q
    queuesExist := by
      intro q hq
      rw [Arena.size_push]
      exact Nat.lt_succ_of_lt (hs.queuesExist q hq)
    forwards := by
      intro b handler hhandler q hq
      rw [Arena.size_push]
      exact Nat.lt_succ_of_lt (hs.forwards b handler hhandler q hq) }

theorem setQueue (hs : s.Sound) (q : Key Queue) (f : Queue → Queue)
    (hlock : ∀ queue, (f queue).lock = queue.lock) :
    (s.setQueue q f).Sound :=
  { hs with
    queuesFree := by
      intro q'
      simp only [State.setQueue]
      rw [s.queues.apply_get_modify q q' f (·.lock) hlock]
      exact hs.queuesFree q'
    queuesExist := by simpa [State.setQueue] using hs.queuesExist
    forwards := by simpa [State.setQueue, State.Forwards] using hs.forwards }

/-! ## Names -/

theorem setDirectory (hs : s.Sound) {f : Directory → Directory}
    (hhandles : (f s.directory).handles = s.directory.handles)
    (hbatches : (f s.directory).batches = s.directory.batches)
    (hloans : (f s.directory).loans = s.directory.loans)
    (hbuses : ∀ bus ∈ (f s.directory).buses.values, bus.index < s.buses.size)
    (htablesNodup : (f s.directory).tables.values.Nodup)
    (htables : ∀ t ∈ (f s.directory).tables.values, t.index < s.tables.size)
    (hqueues : ∀ q ∈ (f s.directory).queues.values, q.index < s.queues.size) :
    (s.setDirectory f).Sound :=
  { hs with
    counted := by
      intro e
      simp only [State.setDirectory, State.handlesOn, State.ownedByNames, hhandles]
      exact hs.counted e
    backed := by
      intro e
      simp only [State.setDirectory, State.stranded, hhandles, hloans]
      exact hs.backed e
    handlesNodup := by
      simp only [State.setDirectory, hhandles]
      exact hs.handlesNodup
    handlesOld := by
      simp only [State.setDirectory, hhandles]
      exact hs.handlesOld
    loansOld := by
      simp only [State.setDirectory, hloans]
      exact hs.loansOld
    batchesNodup := by
      simp only [State.setDirectory, hbatches]
      exact hs.batchesNodup
    batchesLive := by
      simp only [State.setDirectory, hbatches]
      exact hs.batchesLive
    busesExist := hbuses
    tablesNodup := htablesNodup
    tablesExist := htables
    queuesExist := hqueues }

theorem lend (hs : s.Sound) {handle : Handle}
    (hhandle : handle ∈ s.directory.handles.values) :
    (s.setDirectory fun d => { d with loans := handle :: d.loans }).Sound :=
  { hs with
    backed := by
      intro e
      rw [State.stranded_lend hhandle]
      exact hs.backed e
    loansOld := by
      intro other hother
      rcases List.mem_cons.mp hother with rfl | h
      · exact hs.handlesOld other hhandle
      · exact hs.loansOld other h }

theorem unlend (hs : s.Sound) {handle : Handle} (hhandle : handle ∈ s.directory.loans) :
    (s.setDirectory fun d => { d with loans := d.loans.erase handle }).Sound :=
  { hs with
    backed := by
      intro e
      have hcount := State.count_stranded_unlend e hhandle
      have hbacked := hs.backed e
      simp only [State.setDirectory] at hcount ⊢
      omega
    loansOld := fun other hother => hs.loansOld other (List.mem_of_mem_erase hother) }

theorem nameBatch (hs : s.Sound) (name : String) {b : Key Batch}
    (hnamed : b ∉ s.directory.batches.values)
    (hendpoint : (s.batches.get b).endpoint.isSome) :
    (s.setDirectory fun d => { d with batches := d.batches.insert name b }).Sound :=
  { hs with
    batchesNodup := Names.nodup_insert hs.batchesNodup name hnamed
    batchesLive := by
      intro other hother
      rcases List.mem_cons.mp (s.directory.batches.values_insert_subset name b hother)
        with rfl | h
      · exact hendpoint
      · exact hs.batchesLive other h }

theorem unnameBatch (hs : s.Sound) (name : String) :
    (s.setDirectory fun d => { d with batches := d.batches.erase name }).Sound :=
  { hs with
    batchesNodup := Names.nodup_erase hs.batchesNodup name
    batchesLive := fun other hother =>
      hs.batchesLive other (s.directory.batches.values_erase_subset name hother) }

/-- Without spare references, what is stranded is still in flight. -/
theorem stranded_le_foldl_erase (hs : s.Sound) {captured : List (Key Endpoint)}
    {x : Key Endpoint} (hspare : captured.count x ≤ s.spare x) :
    s.stranded.count x ≤ (captured.foldl List.erase s.inFlight).count x := by
  have hbacked := hs.backed x
  have hcount := State.count_foldl_erase x (Nat.le_trans hspare (s.spare_le_count x))
  unfold State.spare at hspare
  omega

theorem stranded_le_erase (hs : s.Sound) {e : Key Endpoint} (hspare : 0 < s.spare e)
    (x : Key Endpoint) :
    s.stranded.count x ≤ (s.inFlight.erase e).count x :=
  hs.stranded_le_foldl_erase (State.count_singleton_le_spare hspare x)

theorem keepHandle (hs : s.Sound) (name : String) {e : Key Endpoint}
    (hspare : 0 < s.spare e) :
    (s.keepHandle name e).Sound :=
  { hs with
    counted := by
      intro x
      rw [State.handlesOn_keepHandle x name (State.mem_inFlight_of_spare hspare)]
      exact hs.counted x
    backed := by
      intro x
      have hroom := hs.stranded_le_erase hspare x
      cases hfind : s.directory.handles.find? name with
      | none =>
          rw [State.stranded_keepHandle_of_fresh hfind hs.loansOld]
          simp only [State.keepHandle, hfind, Option.map_none, Option.toList_none,
            List.nil_append]
          omega
      | some replaced =>
          rw [State.count_stranded_keepHandle x hfind hs.handlesNodup hs.loansOld]
          simp only [State.keepHandle, hfind, Option.map_some, Option.toList_some,
            List.count_append, List.count_singleton, beq_iff_eq]
          by_cases hx : replaced.endpoint = x
          · simp only [hx, and_true, if_true]
            split <;> omega
          · simp only [hx, and_false, if_false]
            omega
    handlesNodup := Names.nodup_insert hs.handlesNodup name fun hold =>
      Nat.lt_irrefl s.serial (hs.handlesOld ⟨s.serial, e⟩ hold)
    handlesOld := by
      intro handle hhandle
      rcases List.mem_cons.mp (s.directory.handles.values_insert_subset name _ hhandle)
        with rfl | h
      · exact Nat.lt_succ_self _
      · exact Nat.lt_succ_of_lt (hs.handlesOld handle h)
    loansOld := fun handle hhandle => Nat.lt_succ_of_lt (hs.loansOld handle hhandle)
    itemsOld := fun b => (hs.itemsOld b).mono (Nat.le_succ _) }

theorem takeHandle (hs : s.Sound) {name : String} {handle : Handle}
    (hfind : s.directory.handles.find? name = some handle)
    (hloan : handle ∉ s.directory.loans) :
    (s.takeHandle name).Sound :=
  { hs with
    counted := by
      intro x
      rw [State.handlesOn_takeHandle]
      exact hs.counted x
    backed := by
      intro x
      have hbacked := hs.backed x
      rw [State.stranded_takeHandle hfind hloan]
      simp only [State.takeHandle, List.count_append]
      omega
    handlesNodup := Names.nodup_erase hs.handlesNodup name
    handlesOld := fun other hother =>
      hs.handlesOld other (s.directory.handles.values_erase_subset name hother) }

/-! ## References and tables -/

theorem index_lt_of_spare (hs : s.Sound) {e : Key Endpoint} (hspare : 0 < s.spare e) :
    e.index < s.endpoints.size :=
  State.index_lt_of_references_pos
    (hs.counted.references_pos (State.handlesOn_pos_of_spare hspare))

theorem index_lt_of_endpoint (hs : s.Sound) {b : Key Batch} {e : Key Endpoint}
    (he : (s.batches.get b).endpoint = some e) :
    e.index < s.endpoints.size :=
  State.index_lt_of_references_pos
    (hs.counted.references_pos (State.handlesOn_pos_of_endpoint he))

theorem addEndpoint (hs : s.Sound) {bus : Key Bus} (hbus : bus.index < s.buses.size)
    (descriptor : Descriptor) :
    (s.addEndpoint bus descriptor).Sound :=
  { hs with
    counted := by
      intro x
      rw [State.handlesOn_addEndpoint]
      simp only [State.addEndpoint]
      rw [Arena.get_push]
      by_cases hx : x = s.endpoints.nextKey
      · subst hx
        have hold := hs.counted s.endpoints.nextKey
        rw [Arena.get_nextKey] at hold
        simp only [if_true, ← hold]
        rfl
      · rw [if_neg hx, if_neg (Ne.symm hx)]
        exact hs.counted x
    backed := by
      intro x
      exact Nat.le_trans (hs.backed x) List.count_le_count_cons
    onBuses := by
      intro x hx
      simp only [State.addEndpoint, State.busOf]
      rw [Arena.get_push]
      split
      · exact hbus
      · next hne =>
          refine hs.onBuses x (Nat.lt_of_le_of_ne (Nat.lt_succ_iff.mp ?_) fun h => ?_)
          · simpa [State.addEndpoint] using hx
          · exact hne (Key.ext h)
    described := by
      intro b e he
      simp only [State.addEndpoint]
      rw [Arena.get_push_of_lt _ _ (hs.index_lt_of_endpoint he)]
      exact hs.described b e he }

theorem gainReference (hs : s.Sound) {e : Key Endpoint}
    (hreferences : 0 < (s.endpoints.get e).references) :
    (s.gainReference e).Sound :=
  { hs with
    counted := by
      intro x
      rw [State.handlesOn_gainReference, ← hs.counted x]
      simp only [State.gainReference]
      rw [Arena.get_modify]
      by_cases hx : x = e
      · subst hx
        simp [State.index_lt_of_references_pos hreferences]
      · simp [hx, Ne.symm hx]
    backed := by
      intro x
      exact Nat.le_trans (hs.backed x) List.count_le_count_cons
    onBuses := hs.onBuses_modify e _ fun _ => rfl
    described := hs.described_modify e _ fun _ => rfl }

theorem loseReference (hs : s.Sound) {e : Key Endpoint} (hspare : 0 < s.spare e) :
    (s.loseReference e).Sound :=
  { hs with
    counted := by
      intro x
      have hcount := State.handlesOn_loseReference s x (State.mem_inFlight_of_spare hspare)
      have hold := hs.counted x
      have hsize := hs.index_lt_of_spare hspare
      simp only [State.loseReference] at hcount ⊢
      rw [Arena.get_modify]
      by_cases hx : x = e
      · subst hx
        simp only [hsize, and_self, if_true] at hcount ⊢
        omega
      · simp only [hx, Ne.symm hx, false_and, if_false] at hcount ⊢
        omega
    backed := hs.stranded_le_erase hspare
    onBuses := hs.onBuses_modify e _ fun _ => rfl
    described := hs.described_modify e _ fun _ => rfl }

/-- A table that comes into being owns nothing. -/
theorem addTable (hs : s.Sound) (name : String) : (s.addTable name).Sound :=
  { hs with
    counted := by
      intro e
      have htables : (s.tables.push default).total (fun table => table.slots.values.count e) =
          s.tables.total fun table => table.slots.values.count e := by
        rw [Arena.total_push]
        rfl
      simp only [State.addTable, State.handlesOn, State.ownedByTables, htables]
      exact hs.counted e
    tablesFree := by
      intro t
      simp only [State.addTable, Arena.get_push]
      split
      · rfl
      · exact hs.tablesFree t
    slotsProper := by
      intro t
      simp only [State.addTable, Arena.get_push]
      split
      · exact Slots.proper_empty
      · exact hs.slotsProper t
    tablesNodup :=
      Names.nodup_insert hs.tablesNodup name fun h => Nat.lt_irrefl _ (hs.tablesExist _ h)
    tablesExist := by
      intro t ht
      simp only [State.addTable, Arena.size_push]
      rcases List.mem_cons.mp (Names.values_insert_subset _ _ _ ht) with rfl | h
      · exact Nat.lt_succ_self _
      · exact Nat.lt_succ_of_lt (hs.tablesExist t h) }

/-- Changing the slots of a table keeps the order of a state when it moves no owner and leaves the
slots in order. -/
theorem modifySlots (hs : s.Sound) (t : Key Table) (f : Table → Slots (Key Endpoint))
    (inFlight : List (Key Endpoint))
    (howners : ∀ x, State.handlesOn { s with
        tables := s.tables.modify t fun table => { table with slots := f table }
        inFlight := inFlight } x = s.handlesOn x)
    (hbacked : ∀ x, s.stranded.count x ≤ inFlight.count x)
    (hproper : (f (s.tables.get t)).Proper) :
    State.Sound { s with
      tables := s.tables.modify t fun table => { table with slots := f table }
      inFlight := inFlight } :=
  { hs with
    counted := by
      intro x
      rw [howners]
      exact hs.counted x
    backed := hbacked
    tablesFree := by
      intro t'
      have hlock := s.tables.apply_get_modify t t'
        (fun table => { table with slots := f table }) Table.lock fun _ => rfl
      exact hlock.trans (hs.tablesFree t')
    slotsProper := by
      intro t'
      rw [Arena.get_modify]
      split
      · exact hproper
      · exact hs.slotsProper t'
    tablesExist := by simpa using hs.tablesExist }

theorem install (hs : s.Sound) {t : Key Table} {e : Key Endpoint} (hspare : 0 < s.spare e)
    (ht : t.index < s.tables.size) :
    (s.install t e).Sound :=
  hs.modifySlots t _ _
    (fun x => State.handlesOn_install x (State.mem_inFlight_of_spare hspare) ht (hs.slotsProper t))
    (hs.stranded_le_erase hspare)
    ((hs.slotsProper t).insert e)

theorem uninstall (hs : s.Sound) {s' : State} {t : Key Table} {slot : Nat} {e : Key Endpoint}
    (h : s.uninstall? t slot = some (e, s')) :
    s'.Sound := by
  have howners := fun x => State.handlesOn_uninstall x h
  obtain ⟨slots, hremove, rfl⟩ := State.uninstall?_eq_some h
  exact hs.modifySlots t (fun _ => slots) _ howners
    (fun x => Nat.le_trans (hs.backed x) List.count_le_count_cons)
    ((hs.slotsProper t).remove hremove)

theorem clearTable (hs : s.Sound) (t : Key Table) :
    (s.clearTable t).Sound :=
  hs.modifySlots t (fun _ => .empty) _
    (fun x => State.handlesOn_clearTable x t)
    (fun x => Nat.le_trans (hs.backed x)
      (by rw [List.count_append]; exact Nat.le_add_left _ _))
    Slots.proper_empty

/-! ## Batches -/

theorem addBatch (hs : s.Sound) {e : Key Endpoint} (hspare : 0 < s.spare e) :
    (s.addBatch e).Sound :=
  { hs with
    counted := by
      intro x
      rw [State.handlesOn_addBatch x (State.mem_inFlight_of_spare hspare)]
      exact hs.counted x
    backed := hs.stranded_le_erase hspare
    batchesLive := by
      intro b hb
      have hlive := hs.batchesLive b hb
      obtain ⟨x, hx⟩ := Option.isSome_iff_exists.mp hlive
      simp only [State.addBatch]
      rw [Arena.get_push_of_lt _ _ (State.index_lt_of_endpoint hx)]
      exact hlive
    described := by
      intro b x hx
      simp only [State.addBatch, State.transferOf] at hx ⊢
      rw [Arena.get_push] at hx ⊢
      split at hx
      · next hb =>
          simp only [Option.some.injEq] at hx
          subst hx
          rw [if_pos hb]
          rfl
      · next hb =>
          rw [if_neg hb]
          exact hs.described b x hx
    forwards := by
      intro b handler hhandler
      simp only [State.addBatch] at hhandler
      rw [Arena.get_push] at hhandler
      split at hhandler
      · exact absurd hhandler (by simp)
      · exact hs.forwards b handler hhandler
    itemsOld := by
      intro b
      simp only [State.addBatch]
      rw [Arena.get_push]
      split
      · exact ⟨by simp, by simp⟩
      · exact hs.itemsOld b }

/-- Changing a batch keeps the order of a state when it moves no owner and leaves alone what the
other conditions speak about. -/
theorem modifyBatch (hs : s.Sound) (b : Key Batch) (f : Batch → Batch)
    (inFlight : List (Key Endpoint)) (serial : Nat) (hserial : s.serial ≤ serial)
    (howners : ∀ x, State.handlesOn { s with
        batches := s.batches.modify b f, inFlight := inFlight, serial := serial } x =
          s.handlesOn x)
    (hbacked : ∀ x, s.stranded.count x ≤ inFlight.count x)
    (hlive : b ∈ s.directory.batches.values → (f (s.batches.get b)).endpoint.isSome)
    (hdescribed : ∀ x, (f (s.batches.get b)).endpoint = some x →
      (f (s.batches.get b)).transfer.descriptor = (s.endpoints.get x).descriptor)
    (hforwards : ∀ handler, (f (s.batches.get b)).handler = some handler →
      s.Forwards handler.action)
    (hold : (f (s.batches.get b)).SerialsBelow serial) :
    State.Sound { s with
      batches := s.batches.modify b f, inFlight := inFlight, serial := serial } :=
  { hs with
    counted := by
      intro x
      rw [howners]
      exact hs.counted x
    backed := hbacked
    handlesOld := fun handle hhandle => Nat.lt_of_lt_of_le (hs.handlesOld handle hhandle) hserial
    loansOld := fun handle hhandle => Nat.lt_of_lt_of_le (hs.loansOld handle hhandle) hserial
    batchesLive := by
      intro b' hb'
      rw [Arena.get_modify]
      split
      · next h => exact hlive (h.1 ▸ hb')
      · exact hs.batchesLive b' hb'
    described := by
      intro b' x hx
      simp only [State.transferOf] at hx ⊢
      rw [Arena.get_modify] at hx ⊢
      split at hx
      · next h =>
          rw [if_pos h]
          exact hdescribed x hx
      · next h =>
          rw [if_neg h]
          exact hs.described b' x hx
    forwards := by
      intro b' handler hhandler
      rw [Arena.get_modify] at hhandler
      split at hhandler
      · exact hforwards handler hhandler
      · exact hs.forwards b' handler hhandler
    itemsOld := by
      intro b'
      rw [Arena.get_modify]
      split
      · exact hold
      · exact (hs.itemsOld b').mono hserial }

theorem detachEndpoint (hs : s.Sound) {b : Key Batch} {e : Key Endpoint}
    (hnamed : b ∉ s.directory.batches.values)
    (he : (s.batches.get b).endpoint = some e) :
    (s.detachEndpoint b).Sound :=
  hs.modifyBatch b _ _ _ (Nat.le_refl _)
    (fun x => State.handlesOn_detachEndpoint x he)
    (fun x => Nat.le_trans (hs.backed x)
      (by rw [List.count_append]; exact Nat.le_add_left _ _))
    (fun h => absurd h hnamed)
    (by simp)
    (hs.forwards b)
    (hs.itemsOld b)

theorem setTransfer (hs : s.Sound) (b : Key Batch) {transfer : Transfer}
    (hdescriptor : transfer.descriptor = (s.transferOf b).descriptor) :
    (s.setTransfer b transfer).Sound :=
  hs.modifyBatch b _ _ _ (Nat.le_refl _)
    (fun x => State.handlesOn_setTransfer x b transfer)
    hs.backed
    (hs.batchesLive b)
    (fun x hx => hdescriptor.trans (hs.described b x hx))
    (hs.forwards b)
    (hs.itemsOld b)

theorem detachHandler (hs : s.Sound) {b : Key Batch} {handler : Handler}
    (hhandler : (s.batches.get b).handler = some handler) :
    (s.detachHandler b).Sound :=
  hs.modifyBatch b _ _ _ (Nat.le_refl _)
    (fun x => State.handlesOn_detachHandler x hhandler)
    (fun x => Nat.le_trans (hs.backed x)
      (by rw [List.count_append]; exact Nat.le_add_left _ _))
    (hs.batchesLive b)
    (hs.described b)
    (by simp)
    ⟨by simp, (hs.itemsOld b).2⟩

theorem detachData (hs : s.Sound) {b : Key Batch} {a : Attachment}
    (hdata : (s.batches.get b).data = some a) :
    (s.detachData b).Sound :=
  hs.modifyBatch b _ _ _ (Nat.le_refl _)
    (fun x => State.handlesOn_detachData x hdata)
    (fun x => Nat.le_trans (hs.backed x)
      (by rw [List.count_append]; exact Nat.le_add_left _ _))
    (hs.batchesLive b)
    (hs.described b)
    (hs.forwards b)
    ⟨(hs.itemsOld b).1, by simp⟩

theorem attachHandler (hs : s.Sound) {b : Key Batch} (hb : b.index < s.batches.size)
    (hnone : (s.batches.get b).handler = none) {action : HandlerAction}
    {captured : List (Key Endpoint)} (noisy : Bool)
    (hspare : ∀ e, captured.count e ≤ s.spare e) (hforwards : s.Forwards action) :
    (s.attachHandler b action captured noisy).Sound :=
  hs.modifyBatch b _ _ _ (Nat.le_succ _)
    (fun x => State.handlesOn_attachHandler x hb hnone action noisy
      (Nat.le_trans (hspare x) (s.spare_le_count x)))
    (fun x => hs.stranded_le_foldl_erase (hspare x))
    (hs.batchesLive b)
    (hs.described b)
    (fun handler h => by
      cases h
      exact hforwards)
    ⟨fun handler h => by
      cases h
      exact Nat.lt_succ_self _,
      ((hs.itemsOld b).mono (Nat.le_succ _)).2⟩

theorem attachData (hs : s.Sound) {b : Key Batch} (hb : b.index < s.batches.size)
    (hnone : (s.batches.get b).data = none) {value : DataValue}
    (hspare : ∀ e, value.captured.count e ≤ s.spare e) :
    (s.attachData b value).Sound :=
  hs.modifyBatch b _ _ _ (Nat.le_succ _)
    (fun x => State.handlesOn_attachData x hb hnone
      (Nat.le_trans (hspare x) (s.spare_le_count x)))
    (fun x => hs.stranded_le_foldl_erase (hspare x))
    (hs.batchesLive b)
    (hs.described b)
    (hs.forwards b)
    ⟨((hs.itemsOld b).mono (Nat.le_succ _)).1, fun a h => by
      cases h
      exact Nat.lt_succ_self _⟩

theorem changeData (hs : s.Sound) {b : Key Batch} {a : Attachment} {change : DataChange}
    {value : DataValue} (hdata : (s.batches.get b).data = some a)
    (hchange : a.value.change? change = some value) :
    State.Sound { s with
      batches := s.batches.modify b fun batch =>
        { batch with data := some { a with value := value } } } :=
  hs.modifyBatch b _ _ _ (Nat.le_refl _)
    (fun x => State.handlesOn_changeData x hdata hchange)
    hs.backed
    (hs.batchesLive b)
    (hs.described b)
    (hs.forwards b)
    ⟨(hs.itemsOld b).1, fun a' h => by
      cases h
      exact (hs.itemsOld b).2 a hdata⟩

end Sound
end State

/-! ## Every change -/

/-- A change keeps a state in order. -/
theorem Change.sound {hands : Hands} {w w' : World} (h : Change hands w w')
    (hs : w.state.Sound) :
    w'.state.Sound := by
  cases h with
  | consult => exact hs.setPlan _ _
  | addBus bus => exact hs.addBus bus
  | addTable name => exact hs.addTable name
  | addQueue => exact hs.addQueue
  | rename hhandles hbatches hloans hbuses htables hqueues =>
      exact hs.setDirectory hhandles hbatches hloans hbuses (htables.nodup hs.tablesNodup)
        (fun t ht => hs.tablesExist t (htables.subset ht)) hqueues
  | createEndpoint hbus => exact hs.addEndpoint hbus _
  | acquire v hreferences => exact hs.gainReference hreferences
  | release hspare => exact hs.loseReference hspare
  | releaseLast hspare => exact (hs.loseReference hspare).setPlan _ _
  | setToggle e value =>
      exact hs.modifyEndpoint e _ (fun _ => rfl) (fun _ => rfl) fun _ => rfl
  | advanceToggle e =>
      exact hs.modifyEndpoint e _ (fun _ => rfl) (fun _ => rfl) fun _ => rfl
  | note => exact hs
  | install hspare hnamed => exact hs.install hspare (hs.tablesExist _ hnamed)
  | uninstall hslot => exact hs.uninstall hslot
  | giveUpTable => exact hs.clearTable _
  | push | handOut | wake | leaveWaker => exact hs.setQueue _ _ fun _ => rfl
  | build hspare => exact hs.addBatch hspare
  | giveUpEndpoint _ hnamed he => exact hs.detachEndpoint hnamed he
  | edit _ hedit => exact hs.setTransfer _ hedit.descriptor_eq
  | handOver _ hhandler =>
      refine (hs.detachHandler hhandler).setTransfer _ ?_
      rw [State.transferOf_detachHandler]
      rfl
  | detachHandler _ hhandler => exact hs.detachHandler hhandler
  | attachHandler _ hsize hnone hspare hforwards =>
      exact hs.attachHandler hsize hnone _ hspare hforwards
  | detachData _ hdata => exact hs.detachData hdata
  | attachData _ hsize hnone hspare => exact hs.attachData hsize hnone hspare
  | changeData _ hdata hchange => exact hs.changeData hdata hchange
  | keepHandle name hspare => exact hs.keepHandle name hspare
  | takeHandle hfind hloan => exact hs.takeHandle hfind hloan
  | lend hhandle => exact hs.lend hhandle
  | unlend hhandle => exact hs.unlend hhandle
  | nameBatch name _ _ hnamed hendpoint => exact hs.nameBatch name hnamed hendpoint
  | unnameBatch => exact hs.unnameBatch _

/-- Whatever happens keeps a state in order. -/
theorem Changes.sound {hands : Hands} {w w' : World} (h : Changes hands w w')
    (hs : w.state.Sound) :
    w'.state.Sound :=
  kept_of_steps (I := (·.state.Sound)) (fun _ _ => Change.sound) h hs

/-- What a change keeps in states that are in order holds for good from such a state on. -/
theorem Changes.kept {hands : Hands} {I : World → Prop} {w w' : World}
    (hkept : ∀ w w', Change hands w w' → w.state.Sound → I w → I w') (h : Changes hands w w')
    (hs : w.state.Sound) (hw : I w) :
    I w' := by
  have hboth : ∀ w w', Change hands w w' → w.state.Sound ∧ I w → w'.state.Sound ∧ I w' :=
    fun w w' hchange hw => ⟨hchange.sound hw.1, hkept w w' hchange hw.1 hw.2⟩
  exact (kept_of_steps hboth h ⟨hs, hw⟩).2

end UsbTransfer
