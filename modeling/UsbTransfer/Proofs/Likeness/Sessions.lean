import UsbTransfer.Proofs.Likeness.Batches

/-!
# Alike sessions

Commands are carried out alike in alike worlds: whatever user code answers, scripts play the same
commands with the same results, and only a direct request to reset toggles tells what the bus
answered.
-/

namespace UsbTransfer
namespace Session

open Run Comparison

variable {C : Comparison} {play play' : Player} {b : Key Batch}

/-! ## Names -/

theorem agree_modifyDirectory {f : Directory → Directory}
    (hf : ∀ d d', Directory.Alike d d' → Directory.Alike (f d) (f d'))
    (hordered : ∀ d, d.batches.Ordered → (f d).batches.Ordered) :
    C.Agree (modifyDirectory f) (modifyDirectory f) :=
  agree_modifyState (fun _ _ hs => hs.setDirectory hf) fun s hs => hordered s.directory hs

theorem agree_endpointNamed (name : String) :
    C.Agree (endpointNamed name) (endpointNamed name) := by
  refine getState_bind fun s s' hs => ?_
  rw [hs.directory.handles]
  split <;> exact agree_pure _

theorem agree_takeHandle (name : String) : C.Agree (takeHandle name) (takeHandle name) := by
  refine getState_bind fun s s' hs => ?_
  simp only [hs.directory.handles, hs.onLoan]
  split
  · exact agree_pure _
  · split
    · exact agree_pure _
    · exact (agree_modifyState (fun _ _ hs => hs.takeHandle name) fun _ h => h).bind fun _ =>
        agree_pure _

theorem agree_takeHandles (hplay : C.Matches play play') (taken : List (Key Endpoint))
    (names : List String) :
    C.Agree (takeHandles play taken names) (takeHandles play' taken names) := by
  induction names generalizing taken with
  | nil => exact agree_pure _
  | cons name rest ih =>
      refine (agree_takeHandle name).bind fun e? => ?_
      cases e? with
      | error mistake => exact (Endpoint.agree_releaseAll hplay taken).bind fun _ => agree_pure _
      | ok e => exact ih _

theorem agree_keepHandle (hplay : C.Matches play play') (name : String) (e : Key Endpoint) :
    C.Agree (keepHandle play name e) (keepHandle play' name e) := by
  refine getState_bind fun s s' hs => ?_
  simp only [hs.directory.handles, hs.onLoan]
  refine Agree.bind (agree_modifyState (fun _ _ hs => hs.keepHandle name e) fun _ h => h)
    fun _ => ?_
  split
  · exact agree_pure ()
  · split
    · exact agree_pure ()
    · exact Endpoint.agree_release hplay _

theorem agree_keepHandles (hplay : C.Matches play play') (stem : String) (i : Nat)
    (es : List (Key Endpoint)) :
    C.Agree (keepHandles play stem i es) (keepHandles play' stem i es) := by
  induction es generalizing i with
  | nil => exact agree_pure ()
  | cons e rest ih =>
      exact ((agree_keepHandle hplay _ e).onFault (Endpoint.agree_releaseAll hplay rest)).bind
        fun _ _ _ => ih _

theorem agree_keepOrRelease (hplay : C.Matches play play') (keep : Option String)
    (e : Key Endpoint) :
    C.Agree (keepOrRelease play keep e) (keepOrRelease play' keep e) := by
  cases keep with
  | none => exact Endpoint.agree_release hplay e
  | some name => exact agree_keepHandle hplay name e

theorem agree_lending (hplay : C.Matches play play') (h : Handle) {α : Type} {m m' : Run α}
    (hm : C.Agree m m') :
    C.Agree (lending play h m) (lending play' h m') := by
  refine Agree.bind (agree_modifyDirectory (fun _ _ hd => ?_) fun _ h => h) fun _ =>
    hm.ensuring (Agree.bind (agree_modifyDirectory (fun _ _ hd => ?_) fun _ h => h) fun _ => ?_)
  · exact { hd with loans := congrArg (h :: ·) hd.loans }
  · exact { hd with loans := congrArg (·.erase h) hd.loans }
  · refine getState_bind fun s s' hs => ?_
    simp only [hs.directory.handles, hs.onLoan]
    split
    · exact agree_pure ()
    · exact Endpoint.agree_release hplay _

theorem agree_keepBatch (hplay : C.Matches play play') (name : String) :
    C.Agree (keepBatch play name b) (keepBatch play' name b) := by
  refine getState_bind fun s s' hs => ?_
  rw [hs.directory.batches]
  refine Agree.bind (agree_modifyDirectory (fun _ _ hd => ?_) fun _ hd => hd.insert name b)
    fun _ => ?_
  · exact { hd with batches := congrArg (·.insert name b) hd.batches }
  split
  · exact agree_pure ()
  · exact Batch.agree_drop hplay

theorem agree_keepTable (hplay : C.Matches play play') (name : String) (t : Key Table) :
    C.Agree (keepTable play name t) (keepTable play' name t) := by
  refine getState_bind fun s s' hs => ?_
  rw [hs.directory.tables]
  refine Agree.bind (agree_modifyDirectory (fun _ _ hd => ?_) fun _ h => h) fun _ => ?_
  · exact { hd with tables := congrArg (·.insert name t) hd.tables }
  split
  · exact agree_pure ()
  · exact Table.agree_destroy hplay _

theorem agree_takeBatch (name : String) : C.Agree (takeBatch name) (takeBatch name) := by
  refine getState_bind fun s s' hs => ?_
  rw [hs.directory.batches]
  split
  · exact agree_pure _
  · refine Agree.bind (agree_modifyDirectory (fun _ _ hd => ?_) fun _ hd => hd.erase name)
      fun _ => agree_pure _
    exact { hd with batches := congrArg (·.erase name) hd.batches }

/-- A batch is put back under its name whatever was done with it. -/
theorem alike_onBatch (hplay : C.Matches play play') (atHand : Option (Key Batch))
    (name : String) {R : Result → Result → Prop} (hR : ∀ r, R r r)
    {act act' : Key Batch → Run Result} (hact : ∀ b, Related C.worlds R (act b) (act' b)) :
    Related C.worlds R (onBatch play atHand name act) (onBatch play' atHand name act') := by
  unfold onBatch
  split
  · exact hact _
  · refine (agree_takeBatch name).bind fun b? => ?_
    cases b? with
    | error mistake => exact related_pure (hR _)
    | ok b => exact (hact b).ensuring (agree_keepBatch hplay name)

/-- What is only looked at is the same. -/
theorem agree_answer {answer : State → Result} (h : ∀ s s', s.Alike s' → answer s' = answer s) :
    C.Agree (do return answer (← getState)) (do return answer (← getState)) := by
  refine getState_bind fun s s' hs => ?_
  rw [h s s' hs.toAlike]
  exact agree_pure _

/-- The view of a handle is taken before the handle is kept or released. -/
theorem agree_handOver (hplay : C.Matches play play') (keep : Option String) (e : Key Endpoint) :
    C.Agree
      (do
        let view := (← getState).handleView e
        keepOrRelease play keep e
        return .ok (.handle view) : Run Result)
      (do
        let view := (← getState).handleView e
        keepOrRelease play' keep e
        return .ok (.handle view)) := by
  refine getState_bind fun s s' hs => ?_
  rw [hs.handleView]
  exact (agree_keepOrRelease hplay keep e).bind fun _ => agree_pure _

/-! ## Buses and endpoints -/

theorem agree_addBus (name : String) {plan plan' : BusPlan Script}
    (hplan : Like C.strict (BusPlan.Alike Script.Alike) plan plan') :
    C.Agree (addBus name plan) (addBus name plan') := by
  refine getState_bind fun s s' hs => ?_
  rw [hs.buses.nextKey, hplan.alike.label_eq]
  refine Agree.bind (agree_edits ⟨fun s s' hs => ?_, fun h => by rw [hplan.same h], fun _ _ h => h⟩)
    fun _ => agree_pure _
  exact { hs with
    buses := hs.buses.push ⟨rfl, hplan.alike⟩
    directory := { hs.directory with
      buses := by simp only [hs.directory.buses] } }

/-- The request to a bus tells what the bus answers. -/
theorem alike_resetOnBus (hplay : C.Matches play play') (name : String) (target : Target)
    (scope : ResetScope) :
    C.Alike (Command.ResultsAlike (.resetOnBus name target scope))
      (resetOnBus play name target scope) (resetOnBus play' name target scope) := by
  refine getState_bind fun s s' hs => ?_
  rw [hs.directory.buses]
  split
  · exact related_pure (.refl (.inl rfl))
  · refine (Bus.alike_resetToggles hplay _ none target scope).bind
      fun answer? answer?' hanswer => ?_
    rcases answer? with _ | _ | _ <;> rcases answer?' with _ | _ | _ <;>
      exact related_pure
        ⟨.inr ⟨trivial, trivial, trivial⟩, fun h => by cases hanswer.same h <;> rfl⟩

theorem agree_addEndpoint (hplay : C.Matches play play') (bus : String) (descriptor : Descriptor)
    (name : String) :
    C.Agree (addEndpoint play bus descriptor name) (addEndpoint play' bus descriptor name) := by
  refine getState_bind fun s s' hs => ?_
  rw [hs.directory.buses]
  split
  · exact agree_pure _
  · refine (Endpoint.agree_create _ descriptor).bind fun e => getState_bind fun s s' hs => ?_
    rw [hs.endpointView]
    exact (agree_keepHandle hplay name e).bind fun _ => agree_pure _

theorem agree_withEndpoint (name : String) {act act' : Key Endpoint → Run Result}
    (hact : ∀ e, C.Agree (act e) (act' e)) :
    C.Agree (withEndpoint name act) (withEndpoint name act') := by
  refine (agree_endpointNamed name).bind fun e? => ?_
  cases e? with
  | error mistake => exact agree_pure _
  | ok e => exact hact e

theorem agree_addReference (hplay : C.Matches play play') (name copy : String) :
    C.Agree (addReference play name copy) (addReference play' name copy) := by
  refine agree_withEndpoint name fun e => (Endpoint.agree_acquire e).bind fun _ =>
    getState_bind fun s s' hs => ?_
  rw [hs.endpoints]
  exact (agree_keepHandle hplay copy e).bind fun _ => agree_pure _

theorem agree_releaseHandle (hplay : C.Matches play play') (name : String) :
    C.Agree (releaseHandle play name) (releaseHandle play' name) := by
  refine (agree_takeHandle name).bind fun e? => ?_
  cases e? with
  | error mistake => exact agree_pure _
  | ok e => exact (Endpoint.agree_release hplay e).bind fun _ => agree_pure _

theorem agree_sameEndpoint (name name' : String) :
    C.Agree (sameEndpoint name name') (sameEndpoint name name') :=
  agree_withEndpoint name fun _ => agree_withEndpoint name' fun _ => agree_pure _

theorem agree_endpointInfo (name : String) : C.Agree (endpointInfo name) (endpointInfo name) :=
  agree_withEndpoint name fun _ => agree_answer fun _ _ hs => by rw [hs.endpointView]

theorem agree_endpointText (name : String) (style : Style) :
    C.Agree (endpointText name style) (endpointText name style) := by
  refine agree_withEndpoint name fun e => getState_bind fun s s' hs => ?_
  rw [hs.endpoints]
  cases style <;> exact agree_pure _

theorem agree_referenceCount (name : String) :
    C.Agree (referenceCount name) (referenceCount name) :=
  agree_withEndpoint name fun _ => agree_answer fun _ _ hs => by rw [hs.endpoints]

theorem agree_toggle (name : String) : C.Agree (toggle name) (toggle name) :=
  agree_withEndpoint name fun _ => agree_answer fun _ _ hs => by rw [hs.endpoints]

theorem agree_setToggle (name : String) (value : Bool) :
    C.Agree (setToggle name value) (setToggle name value) :=
  agree_withEndpoint name fun e => (Endpoint.agree_setToggle e value).bind fun _ => agree_pure _

theorem agree_advanceToggle (name : String) : C.Agree (advanceToggle name) (advanceToggle name) :=
  agree_withEndpoint name fun e => (Endpoint.agree_advanceToggle e).bind fun _ => agree_pure _

/-! ## Tables -/

theorem agree_addTable (hplay : C.Matches play play') (name : String) :
    C.Agree (addTable play name) (addTable play' name) :=
  Table.agree_create.bind fun t => (agree_keepTable hplay name t).bind fun _ => agree_pure _

theorem agree_withTable (name : String) {act act' : Key Table → Run Result}
    (hact : ∀ t, C.Agree (act t) (act' t)) :
    C.Agree (withTable name act) (withTable name act') := by
  refine getState_bind fun s s' hs => ?_
  rw [hs.directory.tables]
  split
  · exact agree_pure _
  · exact hact _

theorem agree_dropTable (hplay : C.Matches play play') (name : String) :
    C.Agree (dropTable play name) (dropTable play' name) := by
  refine agree_withTable name fun t => Agree.bind
    (agree_modifyDirectory (fun _ _ hd => ?_) fun _ h => h) fun _ =>
      (Table.agree_destroy hplay t).bind fun _ => agree_pure _
  exact { hd with tables := congrArg (·.erase name) hd.tables }

theorem agree_register (hplay : C.Matches play play') (table name : String) :
    C.Agree (register play table name) (register play' table name) := by
  refine agree_withTable table fun t => (agree_takeHandle name).bind fun e? => ?_
  cases e? with
  | error mistake => exact agree_pure _
  | ok e =>
      refine (Table.agree_register hplay t e).bind fun outcome => ?_
      cases outcome <;> exact agree_pure _

theorem agree_find (hplay : C.Matches play play') (table : String) (target : Target)
    (keep : Option String) :
    C.Agree (find play table target keep) (find play' table target keep) := by
  refine agree_withTable table fun t => (Table.agree_find? t target).bind fun e? => ?_
  cases e? with
  | none => exact agree_pure _
  | some e => exact agree_handOver hplay keep e

theorem agree_remove (hplay : C.Matches play play') (table : String) (target : Target)
    (keep : Option String) :
    C.Agree (remove play table target keep) (remove play' table target keep) := by
  refine agree_withTable table fun t => (Table.agree_remove t target).bind fun e? => ?_
  cases e? with
  | error error => exact agree_pure _
  | ok e => exact agree_handOver hplay keep e

theorem agree_removeDevice (hplay : C.Matches play play') (table : String) (address : UInt8)
    (keep : Option String) :
    C.Agree (removeDevice play table address keep) (removeDevice play' table address keep) := by
  refine agree_withTable table fun t => (Table.agree_removeDevice t address).bind fun es => ?_
  refine getState_bind fun s s' hs => ?_
  simp only [hs.handleView]
  cases keep with
  | some stem => exact (agree_keepHandles hplay stem 0 es).bind fun _ => agree_pure _
  | none => exact (Endpoint.agree_releaseAll hplay es).bind fun _ => agree_pure _

theorem agree_resetTable (table : String) (target : Target) (scope : ResetScope) :
    C.Agree (resetTable table target scope) (resetTable table target scope) :=
  agree_withTable table fun t => (Table.agree_resetToggles t target scope).bind fun _ =>
    agree_pure _

theorem agree_tableSize (table : String) : C.Agree (tableSize table) (tableSize table) :=
  agree_withTable table fun t => (Table.agree_size t).bind fun _ => agree_pure _

/-! ## Queues -/

theorem agree_keepQueue (name : String) (q : Key Queue) :
    C.Agree (keepQueue name q) (keepQueue name q) :=
  agree_modifyDirectory
    (fun _ _ hd => { hd with queues := congrArg (·.insert name q) hd.queues }) fun _ h => h

theorem agree_addQueue (name : String) : C.Agree (addQueue name) (addQueue name) :=
  Queue.agree_create.bind fun q => (agree_keepQueue name q).bind fun _ => agree_pure _

theorem agree_withQueue (name : String) {act act' : Key Queue → Run Result}
    (hact : ∀ q, C.Agree (act q) (act' q)) :
    C.Agree (withQueue name act) (withQueue name act') := by
  refine getState_bind fun s s' hs => ?_
  rw [hs.directory.queues]
  split
  · exact agree_pure _
  · exact hact _

theorem agree_shareQueue (queue name : String) :
    C.Agree (shareQueue queue name) (shareQueue queue name) :=
  agree_withQueue queue fun q => (agree_keepQueue name q).bind fun _ => agree_pure _

theorem agree_dropQueue (queue : String) : C.Agree (dropQueue queue) (dropQueue queue) := by
  refine agree_withQueue queue fun _ => Agree.bind
    (agree_modifyDirectory (fun _ _ hd => ?_) fun _ h => h) fun _ => agree_pure _
  exact { hd with queues := congrArg (·.erase queue) hd.queues }

theorem agree_push (hplay : C.Matches play play') (queue : String) (c : Completion) :
    C.Agree (push play queue c) (push play' queue c) :=
  agree_withQueue queue fun q => (Queue.agree_push hplay q c).bind fun _ => agree_pure _

theorem agree_tryNext (queue : String) : C.Agree (tryNext queue) (tryNext queue) := by
  refine agree_withQueue queue fun q => (Queue.agree_next? q).bind fun c? => ?_
  cases c? <;> exact agree_pure _

theorem agree_nextText (queue : String) (style : Style) :
    C.Agree (nextText queue style) (nextText queue style) := by
  refine agree_withQueue queue fun q => (Queue.agree_next? q).bind fun c? => ?_
  cases c? with
  | none => exact agree_pure _
  | some c => cases style <;> exact agree_pure _

theorem agree_queueSize (queue : String) : C.Agree (queueSize queue) (queueSize queue) :=
  agree_withQueue queue fun q => (Queue.agree_size q).bind fun _ => agree_pure _

theorem agree_addWaker (name : String) {code code' : Option Script}
    (hcode : Like C.strict CodeAlike code code') :
    C.Agree (addWaker name code) (addWaker name code') := by
  refine Agree.bind (agree_edits ⟨fun _ _ hs => ?_, fun h => by rw [hcode.same h], fun _ _ h => h⟩)
    fun _ => agree_pure _
  exact { hs with
    directory := { hs.directory with
      wakers := hs.directory.wakers.insert name ⟨rfl, hcode.alike⟩ } }

theorem agree_pollOnce (q : Key Queue) (route : PollRoute) {waker waker' : Waker}
    (hwaker : Like C.strict Waker.Alike waker waker') {meanwhile meanwhile' : Run Unit}
    (hmeanwhile : C.Agree meanwhile meanwhile') :
    C.Agree (pollOnce q route waker meanwhile) (pollOnce q route waker' meanwhile') := by
  have hpoll := Queue.agree_poll q hwaker hmeanwhile
  cases route with
  | direct | future =>
      refine hpoll.bind fun answer => ?_
      cases answer <;> exact agree_pure _
  | stream =>
      refine Agree.bind (hpoll.bind fun answer => agree_pure (answer.map some)) fun answer => ?_
      rcases answer with (_ | c) | _ <;> exact agree_pure _

theorem agree_poll (queue : String) (route : PollRoute) (waker : String) :
    C.Agree (poll queue route waker) (poll queue route waker) := by
  refine agree_withQueue queue fun q => getState_bind fun s s' hs => ?_
  have hwaker := hs.read (·.directory.wakers.find? waker) (hs.directory.wakers.find? waker)
  generalize s.directory.wakers.find? waker = w?, s'.directory.wakers.find? waker = w?' at hwaker ⊢
  cases hwaker.alike with
  | none => exact agree_pure _
  | some hw => exact agree_pollOnce q route hwaker.of_some (agree_pure ())

theorem agree_pollRacing (hplay : C.Matches play play') (queue : String) (route : PollRoute)
    (pushed : Completion) :
    C.Agree (pollRacing play queue route pushed) (pollRacing play' queue route pushed) :=
  agree_withQueue queue fun q =>
    agree_pollOnce q route (.refl (.refl racingWaker)) (Queue.agree_push hplay q pushed)

/-! ## Batches -/

theorem agree_createBatch (hplay : C.Matches play play') (handle name : String) :
    C.Agree (createBatch play handle name) (createBatch play' handle name) := by
  refine getState_bind fun s s' hs => ?_
  rw [hs.directory.handles]
  split
  · exact agree_pure _
  · refine agree_lending hplay _ ((Batch.agree_create hplay _).bind fun b? => ?_)
    cases b? with
    | error error => exact agree_pure _
    | ok b =>
        refine getState_bind fun s s' hs => ?_
        rw [hs.batchView]
        exact (agree_keepBatch hplay name).bind fun _ => agree_pure _

theorem agree_newBatch (hplay : C.Matches play play') (handle name : String) :
    C.Agree (newBatch play handle name) (newBatch play' handle name) := by
  refine agree_withEndpoint handle fun e => (Batch.agree_build e).bind fun b =>
    getState_bind fun s s' hs => ?_
  rw [hs.batchView]
  exact (agree_keepBatch hplay name).bind fun _ => agree_pure _

theorem agree_endBatch (name : String) {ending ending' : Key Batch → Run Unit}
    (hending : ∀ b, C.Agree (ending b) (ending' b)) :
    C.Agree (endBatch name ending) (endBatch name ending') := by
  refine (agree_takeBatch name).bind fun b? => ?_
  cases b? with
  | error mistake => exact agree_pure _
  | ok b => exact (hending b).bind fun _ => agree_pure _

theorem agree_batchInfo : C.Agree (batchInfo b) (batchInfo b) :=
  agree_answer fun _ _ hs => by rw [hs.batchView]

theorem agree_batchText (style : Style) : C.Agree (batchText b style) (batchText b style) := by
  refine getState_bind fun s s' hs => ?_
  rw [hs.transferOf]
  cases style <;> exact agree_pure _

theorem agree_batchEndpoint (hplay : C.Matches play play') (keep : Option String) :
    C.Agree (batchEndpoint play b keep) (batchEndpoint play' b keep) := by
  refine getState_bind fun s s' hs => ?_
  rw [(hs.batches.get b).endpoint]
  split
  · exact agree_pure _
  · exact (Endpoint.agree_acquire _).bind fun _ => agree_handOver hplay keep _

theorem agree_batchIsOn (handle : String) : C.Agree (batchIsOn b handle) (batchIsOn b handle) := by
  refine agree_withEndpoint handle fun e => getState_bind fun s s' hs => ?_
  rw [(hs.batches.get b).endpoint]
  split <;> exact agree_pure _

theorem agree_changeTransfer (f : Transfer → Transfer) :
    C.Agree (changeTransfer b f) (changeTransfer b f) :=
  (Batch.agree_modifyTransfer f).bind fun _ => agree_pure _

theorem agree_setSetup (setup : SetupPacket) : C.Agree (setSetup b setup) (setSetup b setup) := by
  refine Agree.bind (getState_bind fun s s' hs => ?_) fun _ => agree_pure _
  rw [hs.transferOf]
  exact Batch.agree_edit _

theorem agree_schedule : C.Agree (schedule b) (schedule b) := by
  refine Agree.bind (getState_bind fun s s' hs => ?_) fun _ => agree_pure _
  rw [hs.transferOf]
  exact Batch.agree_edit _

theorem agree_allocBuffer (length : Nat) (granted : Bool) :
    C.Agree (allocBuffer b length granted) (allocBuffer b length granted) := by
  refine (Batch.agree_allocBuffer length granted).bind fun outcome => ?_
  cases outcome <;> exact agree_pure _

theorem agree_write (start : Nat) (bytes : List UInt8) :
    C.Agree (write b start bytes) (write b start bytes) := by
  refine getState_bind fun s s' hs => ?_
  rw [hs.transferOf]
  split
  · exact agree_pure _
  · exact agree_changeTransfer _

/-- The request by way of a batch tells what its bus answers. -/
theorem alike_resetToggle (hplay : C.Matches play play') (name : String) :
    C.Alike (Command.ResultsAlike (.resetToggle name)) (resetToggle play b)
      (resetToggle play' b) := by
  refine (Batch.alike_resetToggles hplay).bind fun outcome outcome' houtcome => ?_
  cases outcome <;> cases outcome' <;>
    exact related_pure
      ⟨.inr ⟨trivial, trivial, trivial⟩, fun h => by cases houtcome.same h <;> rfl⟩

theorem agree_onComplete (hplay : C.Matches play play') (name : String)
    {code code' : Option Script} {reply reply' : Option UsbError}
    (haction : Like C.strict HandlerAction.Alike (.run name code reply) (.run name code' reply'))
    (captured : List String) (noisy : Bool) :
    C.Agree (onComplete play b ⟨name, code, reply, captured, noisy⟩)
      (onComplete play' b ⟨name, code', reply', captured, noisy⟩) := by
  refine (agree_takeHandles hplay [] captured).bind fun captured? => ?_
  cases captured? with
  | error mistake => exact agree_pure _
  | ok captured =>
      exact (Batch.agree_attachHandler hplay haction captured noisy).bind fun _ => agree_pure _

theorem agree_toQueue (hplay : C.Matches play play') (queue : String) :
    C.Agree (toQueue play b queue) (toQueue play' b queue) := by
  refine getState_bind fun s s' hs => ?_
  rw [hs.directory.queues]
  split
  · exact agree_pure _
  · exact (Batch.agree_attachHandler hplay (.refl (.forward _)) [] false).bind fun _ =>
      agree_pure _

theorem agree_takeValue (spec : DataSpec) : C.Agree (takeValue spec) (takeValue spec) := by
  cases spec with
  | number | text | noisy => exact agree_pure _
  | handle name =>
      refine (agree_takeHandle name).bind fun e? => ?_
      cases e? <;> exact agree_pure _

theorem agree_setData (hplay : C.Matches play play') (spec : DataSpec) :
    C.Agree (setData play b spec) (setData play' b spec) := by
  refine (agree_takeValue spec).bind fun value? => ?_
  cases value? with
  | error mistake => exact agree_pure _
  | ok value => exact (Batch.agree_attachData hplay value).bind fun _ => agree_pure _

theorem agree_getData (type : DataType) : C.Agree (getData b type) (getData b type) := by
  refine getState_bind fun s s' hs => ?_
  rw [(hs.batches.get b).data, hs.dataAnswer]
  split <;> exact agree_pure _

theorem agree_changeData (change : DataChange) :
    C.Agree (changeData b change) (changeData b change) := by
  refine getState_bind fun s s' hs => ?_
  rw [(hs.batches.get b).data, hs.dataAnswer]
  split
  · exact agree_pure _
  · split
    · exact agree_pure _
    · refine Agree.bind (Batch.agree_modify fun _ _ h => ?_) fun _ => agree_pure _
      exact { h with data := rfl }

theorem agree_takeData (hplay : C.Matches play play') (type : DataType) (keep : Option String) :
    C.Agree (takeData play b type keep) (takeData play' b type keep) := by
  refine (Batch.agree_takeDataOf? type).bind fun a? => ?_
  rcases a? with _ | a
  · exact agree_pure _
  · obtain ⟨serial, value⟩ := a
    cases value with
    | handle e => exact agree_handOver hplay keep e
    | number | text | noisy =>
        refine getState_bind fun s s' hs => ?_
        rw [hs.dataAnswer]
        exact (Attachment.agree_destroy hplay _).bind fun _ => agree_pure _

/-! ## Commands -/

/-- Alike commands are carried out alike. -/
theorem alike_carryOut (hplay : C.Matches play play') (atHand : Option (Key Batch))
    {command command' : Command} (h : Like C.strict Command.Alike command command') :
    C.Alike command.ResultsAlike (carryOut play atHand command)
      (carryOut play' atHand command') := by
  have hagree : ∀ {command : Command} {m m' : Run Result}, C.Agree m m' →
      C.Alike command.ResultsAlike m m' :=
    fun h => h.mono fun _ _ heq => ⟨.inl heq, fun _ => heq.symm⟩
  have hon : ∀ {command : Command} (name : String) {act act' : Key Batch → Run Result},
      (∀ b, C.Agree (act b) (act' b)) → C.Alike command.ResultsAlike
        (onBatch play atHand name act) (onBatch play' atHand name act') :=
    fun name _ _ hact => hagree (alike_onBatch hplay atHand name (fun _ => rfl) hact)
  obtain ⟨halike, hsame⟩ := h
  cases halike with
  | addBus name hplan =>
      exact hagree (agree_addBus name ⟨hplan, fun h => by cases hsame h; rfl⟩)
  | addWaker name hcode =>
      exact hagree (agree_addWaker name ⟨hcode, fun h => by cases hsame h; rfl⟩)
  | onComplete batch name hcode reply reply' captured noisy =>
      refine hon batch fun _ => agree_onComplete hplay name ⟨.run name hcode reply reply', ?_⟩ _ _
      exact fun h => by cases hsame h; rfl
  | same command =>
      cases command with
      | addBus name plan => exact hagree (agree_addBus name (.refl (.refl plan)))
      | resetOnBus bus target scope => exact alike_resetOnBus hplay bus target scope
      | addEndpoint bus descriptor handle =>
          exact hagree (agree_addEndpoint hplay bus descriptor handle)
      | addReference handle copy => exact hagree (agree_addReference hplay handle copy)
      | releaseHandle handle => exact hagree (agree_releaseHandle hplay handle)
      | sameEndpoint a b => exact hagree (agree_sameEndpoint a b)
      | endpointInfo handle => exact hagree (agree_endpointInfo handle)
      | endpointText handle style => exact hagree (agree_endpointText handle style)
      | referenceCount handle => exact hagree (agree_referenceCount handle)
      | toggle handle => exact hagree (agree_toggle handle)
      | setToggle handle value => exact hagree (agree_setToggle handle value)
      | advanceToggle handle => exact hagree (agree_advanceToggle handle)
      | addTable name => exact hagree (agree_addTable hplay name)
      | dropTable table => exact hagree (agree_dropTable hplay table)
      | register table handle => exact hagree (agree_register hplay table handle)
      | find table target keep => exact hagree (agree_find hplay table target keep)
      | remove table target keep => exact hagree (agree_remove hplay table target keep)
      | removeDevice table address keep =>
          exact hagree (agree_removeDevice hplay table address keep)
      | resetTable table target scope => exact hagree (agree_resetTable table target scope)
      | tableSize table => exact hagree (agree_tableSize table)
      | createBatch handle batch => exact hagree (agree_createBatch hplay handle batch)
      | newBatch handle batch => exact hagree (agree_newBatch hplay handle batch)
      | batchInfo batch => exact hon batch fun _ => agree_batchInfo
      | batchText batch style => exact hon batch fun _ => agree_batchText style
      | batchEndpoint batch keep => exact hon batch fun _ => agree_batchEndpoint hplay keep
      | batchIsOn batch handle => exact hon batch fun _ => agree_batchIsOn handle
      | setScope batch scope => exact hon batch fun _ => agree_changeTransfer _
      | setSetup batch setup => exact hon batch fun _ => agree_setSetup setup
      | setBuffer batch data => exact hon batch fun _ => agree_changeTransfer _
      | allocBuffer batch length granted =>
          exact hon batch fun _ => agree_allocBuffer length granted
      | write batch start bytes => exact hon batch fun _ => agree_write start bytes
      | complete batch status actual => exact hon batch fun _ => agree_changeTransfer _
      | schedule batch => exact hon batch fun _ => agree_schedule
      | resetToggle batch =>
          exact alike_onBatch hplay atHand batch (fun _ => .refl (.inl rfl)) fun _ =>
            alike_resetToggle hplay batch
      | onComplete batch handler =>
          exact hon batch fun _ => agree_onComplete hplay handler.name
            (.refl (.run _ (CodeAlike.refl _) _ _)) handler.captured handler.noisy
      | toQueue batch queue => exact hon batch fun _ => agree_toQueue hplay queue
      | setData batch value => exact hon batch fun _ => agree_setData hplay value
      | getData batch type => exact hon batch fun _ => agree_getData type
      | changeData batch change => exact hon batch fun _ => agree_changeData change
      | takeData batch type keep => exact hon batch fun _ => agree_takeData hplay type keep
      | finish batch => exact hagree (agree_endBatch batch fun _ => Batch.agree_finish hplay)
      | abort batch => exact hagree (agree_endBatch batch fun _ => Batch.agree_abort hplay)
      | destroy batch => exact hagree (agree_endBatch batch fun _ => Batch.agree_destroy hplay)
      | addQueue name => exact hagree (agree_addQueue name)
      | shareQueue queue name => exact hagree (agree_shareQueue queue name)
      | dropQueue queue => exact hagree (agree_dropQueue queue)
      | push queue completion => exact hagree (agree_push hplay queue completion)
      | tryNext queue => exact hagree (agree_tryNext queue)
      | nextText queue style => exact hagree (agree_nextText queue style)
      | queueSize queue => exact hagree (agree_queueSize queue)
      | addWaker name code => exact hagree (agree_addWaker name (.refl (.refl code)))
      | poll queue route waker => exact hagree (agree_poll queue route waker)
      | pollRacing queue route pushed => exact hagree (agree_pollRacing hplay queue route pushed)
      | raise message => exact hagree (related_throw _)
      | unreadable mistake => exact hagree (agree_pure _)

theorem alike_settle {R : Result → Result → Prop} (hR : ∀ r, R r r) {m m' : Run Result}
    (hm : Related C.worlds R m m') :
    Related C.worlds R (settle m) (settle m') := by
  refine hm.attempt.bind fun r r' hr => ?_
  cases hr with
  | ok ha => exact related_pure ha
  | error fault => exact related_pure (hR _)

/-- What becomes of a command is told alike. -/
theorem alike_settled (hplay : C.Matches play play') (atHand : Option (Key Batch))
    {command command' : Command} (h : Like C.strict Command.Alike command command') :
    C.Alike command.ResultsAlike (settle (carryOut play atHand command))
      (settle (carryOut play' atHand command')) :=
  alike_settle (fun _ => .refl (.inl rfl)) (alike_carryOut hplay atHand h)

theorem agree_playCommand (hplay : C.Matches play play') (atHand : Option (Key Batch))
    {command command' : Command} (h : Like C.strict Command.Alike command command') :
    C.Agree (playCommand play atHand command) (playCommand play' atHand command') := by
  have hcarried : C.Agree
      (do
        let result ← settle (carryOut play atHand command)
        record (.stepEnded result))
      (do
        let result ← settle (carryOut play' atHand command')
        record (.stepEnded result)) := by
    refine (alike_settled hplay atHand h).bind fun r r' hr => agree_record_of ?_
    refine hr.map Occurrence.stepEnded ?_
    rintro (rfl | ⟨-, h, h'⟩)
    · exact .same _
    · exact .stepEnded h h'
  cases h.alike with
  | addBus | addWaker | onComplete => exact hcarried
  | same command =>
      cases command with
      | raise message => exact related_throw _
      | _ => exact hcarried

/-- Whatever is compared, the scripts of both courses are played by the same player. -/
theorem player_matches (limit : Nat) : C.Matches (player limit) (player limit) := by
  induction limit with
  | zero => exact fun _ _ _ _ => agree_record .tooDeep
  | succ limit ih =>
      exact fun atHand _ _ hscript => agree_forM hscript.forall₂ fun _ _ h =>
        agree_playCommand ih atHand h

/-! ## The end of a session -/

theorem agree_contain {m m' : Run Unit} (hm : C.Agree m m') :
    C.Agree (contain m) (contain m') := by
  refine Related.bind hm.attempt fun r r' hr => ?_
  cases hr with
  | ok _ => exact agree_pure ()
  | error fault => exact agree_record _

theorem agree_releaseEach {first? : Directory → Option String}
    {releaseNamed releaseNamed' : String → Run Unit}
    (hfirst : ∀ d d', Directory.Alike d d' → first? d' = first? d)
    (hrelease : ∀ name, C.Agree (releaseNamed name) (releaseNamed' name)) (limit : Nat) :
    C.Agree (releaseEach first? releaseNamed limit) (releaseEach first? releaseNamed' limit) := by
  induction limit with
  | zero => exact agree_pure ()
  | succ limit ih =>
      refine getState_bind fun s s' hs => ?_
      rw [hfirst _ _ hs.directory]
      split
      · exact agree_pure ()
      · exact (agree_contain (hrelease _)).bind fun _ => ih

theorem agree_forgetHandle (hplay : C.Matches play play') (name : String) :
    C.Agree (forgetHandle play name) (forgetHandle play' name) := by
  refine (agree_takeHandle name).bind fun e? => ?_
  cases e? with
  | error => exact agree_pure ()
  | ok e => exact Endpoint.agree_release hplay e

theorem agree_forgetBatch (hplay : C.Matches play play') (name : String) :
    C.Agree (forgetBatch play name) (forgetBatch play' name) := by
  refine (agree_takeBatch name).bind fun b? => ?_
  cases b? with
  | error => exact agree_pure ()
  | ok b => exact Batch.agree_drop hplay

theorem agree_forgetTable (hplay : C.Matches play play') (name : String) :
    C.Agree (forgetTable play name) (forgetTable play' name) := by
  refine getState_bind fun s s' hs => ?_
  rw [hs.directory.tables]
  split
  · exact agree_pure ()
  · refine Agree.bind (agree_modifyDirectory (fun _ _ hd => ?_) fun _ h => h) fun _ =>
      Table.agree_destroy hplay _
    exact { hd with tables := congrArg (·.erase name) hd.tables }

theorem agree_close (hplay : C.Matches play play') : C.Agree (close play) (close play') := by
  refine Agree.bind (agree_releaseEach ?_ (agree_forgetBatch hplay) _) fun _ => ?_
  · exact fun _ _ hd => congrArg Names.first? hd.batches
  refine Agree.bind (agree_releaseEach ?_ (agree_forgetHandle hplay) _) fun _ => ?_
  · exact fun _ _ hd => congrArg Names.first? hd.handles
  refine Agree.bind (agree_releaseEach ?_ (agree_forgetTable hplay) _) fun _ => ?_
  · exact fun _ _ hd => congrArg Names.first? hd.tables
  refine agree_releaseEach (fun _ _ hd => congrArg Names.first? hd.queues) (fun name => ?_) _
  exact agree_modifyDirectory
    (fun _ _ hd => { hd with queues := congrArg (·.erase name) hd.queues }) fun _ h => h

end Session
end UsbTransfer
