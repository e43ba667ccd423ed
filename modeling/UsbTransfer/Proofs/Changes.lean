import UsbTransfer.Proofs.Outcomes
import UsbTransfer.Proofs.Places
import Mathlib.Logic.Relation

/-!
# What can change

Whatever a session does comes down to the changes listed here, each with what holds when it is
made.  An operation is a sequence of them, with the changes that user code makes in between; so a
property of all worlds has to be checked for these changes only.

Operations in progress have batches in their hands.  Nobody else touches a batch that is held, and
nobody else ends or names one that was lent to user code.
-/

namespace UsbTransfer

/-- The locks that an operation holds when it records an occurrence. -/
inductive View where
  | unlocked
  | table (t : Key Table)
  | queue (q : Key Queue)

/-- The state as it is under a lock. -/
def View.of : View → State → State
  | .unlocked, s => s
  | .table t, s =>
      { s with tables := s.tables.modify t fun table => { table with lock := .held } }
  | .queue q, s =>
      { s with queues := s.queues.modify q fun queue => { queue with lock := .held } }

/-- The world after an occurrence was recorded under a lock. -/
def World.noteUnder (w : World) (v : View) (o : Occurrence) : World :=
  { w with history := ⟨o, v.of w.state⟩ :: w.history }

namespace World

@[simp]
theorem noteUnder_state (w : World) (v : View) (o : Occurrence) :
    (w.noteUnder v o).state = w.state :=
  rfl

@[simp]
theorem noteUnder_history (w : World) (v : View) (o : Occurrence) :
    (w.noteUnder v o).history = ⟨o, v.of w.state⟩ :: w.history :=
  rfl

end World

/-- The batches in the hands of operations in progress. -/
structure Hands where
  /-- The batches that nobody else may touch. -/
  held : List (Key Batch)
  /-- The batches that user code may use, but neither end nor name. -/
  lent : List (Key Batch)

namespace Hands

/-- Nothing is in anybody's hands. -/
def empty : Hands := ⟨[], []⟩

/-- One more batch is held. -/
def hold (hands : Hands) (b : Key Batch) : Hands :=
  { hands with held := b :: hands.held }

/-- One more batch is lent. -/
def lend (hands : Hands) (b : Key Batch) : Hands :=
  { hands with lent := b :: hands.lent }

/-- One more batch is lent, if there is one at hand. -/
def lendAny (hands : Hands) : Option (Key Batch) → Hands
  | none => hands
  | some b => hands.lend b

/-- An operation may change the batch. -/
def MayTouch (hands : Hands) (b : Key Batch) : Prop :=
  b ∉ hands.held

/-- An operation may end the batch or put it under a name. -/
def MayEnd (hands : Hands) (b : Key Batch) : Prop :=
  b ∉ hands.held ∧ b ∉ hands.lent

/-- Whoever has the second hands is bound at least as much as whoever has the first. -/
def Within (hands others : Hands) : Prop :=
  (∀ b, others.MayTouch b → hands.MayTouch b) ∧ ∀ b, others.MayEnd b → hands.MayEnd b

end Hands

namespace Occurrence

/-- The batch that an occurrence is about. -/
def batch? : Occurrence → Option (Key Batch)
  | .batchBuilt b _ | .batchCreated b _ | .bufferRefused b _ | .togglesResetting b
  | .finishing b | .resetFailed b _ | .handlerFailed b _ | .endpointGivenUp b _
  | .batchFarewell _ b | .batchReleased b _ | .batchEnded b | .handlerAttached b _
  | .handlerInvoked b _ _ _ | .handlerDestroyed b _ _ | .dataAttached b _ | .dataTaken b _
  | .dataDestroyed b _ _ => some b
  | .resetRequested _ asker _ _ => asker
  | _ => none

/-- The batch that an occurrence belongs to the end of. -/
def endOf? : Occurrence → Option (Key Batch)
  | .finishing b | .resetFailed b _ | .handlerFailed b _ | .endpointGivenUp b _
  | .batchFarewell _ b | .batchReleased b _ | .batchEnded b | .handlerInvoked b _ _ _ => some b
  | _ => none

/-- User code gets control after the occurrence. -/
def Yields : Occurrence → Prop
  | .endpointFarewell _ _ | .tableResetByBus _ _ | .batchRequested _ _ | .batchBuilt _ _
  | .resetRequested _ _ _ _ | .batchFarewell _ _ | .handlerInvoked _ _ _ _
  | .handlerDestroyed _ _ _ | .dataDestroyed _ _ _ | .woken _ _ | .stepEnded _ | .tooDeep => True
  | _ => False

/-- What holds when an occurrence is recorded that changes nothing by itself. -/
def Fits (s : State) : Occurrence → Prop
  | .registrationRefused t e =>
      ∃ entry, (s.tables.get t).lookup? s.targetOf (s.targetOf e) = some entry
  | .unregistered t target e =>
      ∃ slot, (s.tables.get t).lookup? s.targetOf target = some (slot, e)
  | .resetRequested bus (some b) target scope =>
      ∃ e, (s.batches.get b).endpoint = some e ∧ bus = s.busOf e ∧
        (s.transferOf b).NeedsReset ∧ target = (s.transferOf b).target ∧
          scope = (s.transferOf b).scope
  | .batchFarewell _ b => (s.batches.get b).endpoint = none
  | .dataTaken b n => (s.batches.get b).data = none ∧ n < s.serial
  | .waiting q name =>
      (s.queues.get q).pending = [] ∧ (s.queues.get q).waker.map (·.name) = some name
  | .deviceUnregistered _ _ _ | .tableReset _ _ | .tableResetByBus _ _ | .batchRequested _ _
  | .batchCreated _ _ | .bufferRefused _ _ | .togglesResetting _ | .resetRequested _ none _ _
  | .finishing _ | .resetFailed _ _ | .handlerFailed _ _ | .batchReleased _ _ | .batchEnded _
  | .handlerDestroyed _ _ _ | .dataDestroyed _ _ _ | .endpointFreed _ _
  | .stepEnded _ | .tooDeep | .faultAtEnd _ => True
  | .endpointCreated _ | .referenceTaken _ | .referenceReleased _ | .endpointFarewell _ _
  | .toggleSet _ _ | .toggleAdvanced _ | .tableGivenUp _ | .batchBuilt _ _
  | .endpointGivenUp _ _ | .handlerAttached _ _ | .handlerInvoked _ _ _ _
  | .dataAttached _ _ | .pushed _ _ | .handedOut _ _ | .woken _ _ | .registered _ _ => False

/-- The occurrence announces that an endpoint at the target is uninstalled from a table. -/
def Uninstalls (t : Key Table) (e : Key Endpoint) (target : Target) : Occurrence → Prop
  | .unregistered t' _ e' => t' = t ∧ e' = e
  | .deviceUnregistered t' address _ => t' = t ∧ target.address = address
  | _ => False

end Occurrence

namespace Transfer

/-- The ways in which the plain data of a batch are changed before it ends. -/
inductive Edit : Transfer → Transfer → Prop where
  | setScope (t : Transfer) (scope : ResetScope) : Edit t (t.setScope scope)
  | setSetup {t t' : Transfer} {setup : SetupPacket} (h : t.setSetup setup = .ok t') : Edit t t'
  | setBuffer (t : Transfer) (data : List UInt8) : Edit t (t.setBuffer data)
  | allocBuffer {t t' : Transfer} {length : Nat} {granted : Bool}
      (h : t.allocBuffer? length granted = some t') : Edit t t'
  | write {t t' : Transfer} {start : Nat} {bytes : List UInt8}
      (h : t.write? start bytes = some t') : Edit t t'
  | complete (t : Transfer) (status : Status) (actual : Nat) : Edit t (t.complete status actual)
  | cancel (t : Transfer) : Edit t t.cancel
  | schedule {t t' : Transfer} (h : t.schedule = .ok t') : Edit t t'

theorem Edit.descriptor_eq {t t' : Transfer} (h : Edit t t') :
    t'.descriptor = t.descriptor := by
  cases h with
  | setScope | setBuffer | complete | cancel => rfl
  | setSetup h =>
      unfold Transfer.setSetup at h
      split at h
      · cases h
        rfl
      · cases h
  | allocBuffer h =>
      unfold allocBuffer? at h
      split at h
      · cases h
        rfl
      · cases h
  | write h =>
      unfold write? at h
      split at h
      · cases h
        rfl
      · cases h
  | schedule h =>
      unfold Transfer.schedule at h
      split at h
      · cases h
        rfl
      · cases h

end Transfer

namespace State

/-- A bus goes on with another plan. -/
def setPlan (s : State) (bus : Key Bus) (plan : BusPlan Script) : State :=
  { s with buses := s.buses.modify bus fun b => { b with plan := plan } }

/-- A plan of which some behaviour was used up is reported as before. -/
def KeepsLabel (s : State) (bus : Key Bus) (plan : BusPlan Script) : Prop :=
  plan.label = (s.buses.get bus).plan.label ∧ plan.silent = (s.buses.get bus).plan.silent

/-- A table comes into being under a name. -/
def addTable (s : State) (name : String) : State :=
  { s with
    tables := s.tables.push default
    directory := { s.directory with tables := s.directory.tables.insert name s.tables.nextKey } }

/-- A batch gets other plain data. -/
def setTransfer (s : State) (b : Key Batch) (t : Transfer) : State :=
  { s with batches := s.batches.modify b fun batch => { batch with transfer := t } }

/-- A queue gets other contents. -/
def setQueue (s : State) (q : Key Queue) (f : Queue → Queue) : State :=
  { s with queues := s.queues.modify q f }

/-- Every queue that a handler passes completions on to exists. -/
def Forwards (s : State) (action : HandlerAction) : Prop :=
  ∀ q, action = .forward q → q.index < s.queues.size

end State

/-- The changes that can be made while batches are in the hands of others. -/
inductive Change (hands : Hands) : World → World → Prop where
  /-- A bus has used up a behaviour. -/
  | consult {w : World} {bus : Key Bus} {plan : BusPlan Script}
      (hplan : w.state.KeepsLabel bus plan) :
      Change hands w (w.alter (·.setPlan bus plan))
  | addBus {w : World} (bus : Bus) :
      Change hands w (w.alter fun s => { s with buses := s.buses.push bus })
  | addTable {w : World} (name : String) :
      Change hands w (w.alter (·.addTable name))
  | addQueue {w : World} :
      Change hands w (w.alter fun s => { s with queues := s.queues.push default })
  /-- Buses, queues and wakers are named otherwise, and tables lose their names. -/
  | rename {w : World} {f : Directory → Directory}
      (hhandles : (f w.state.directory).handles = w.state.directory.handles)
      (hbatches : (f w.state.directory).batches = w.state.directory.batches)
      (hloans : (f w.state.directory).loans = w.state.directory.loans)
      (hbuses : ∀ bus ∈ (f w.state.directory).buses.values, bus.index < w.state.buses.size)
      (htables : (f w.state.directory).tables.values.Sublist w.state.directory.tables.values)
      (hqueues : ∀ q ∈ (f w.state.directory).queues.values, q.index < w.state.queues.size) :
      Change hands w (w.alter (·.setDirectory f))
  | createEndpoint {w : World} {bus : Key Bus} {descriptor : Descriptor}
      (hbus : bus.index < w.state.buses.size) :
      Change hands w
        ((w.alter (·.addEndpoint bus descriptor)).note
          (.endpointCreated w.state.endpoints.nextKey))
  | acquire {w : World} {e : Key Endpoint} (v : View)
      (hreferences : 0 < (w.state.endpoints.get e).references) :
      Change hands w ((w.alter (·.gainReference e)).noteUnder v (.referenceTaken e))
  | release {w : World} {e : Key Endpoint} (hspare : 0 < w.state.spare e)
      (hreferences : 1 < (w.state.endpoints.get e).references) :
      Change hands w ((w.alter (·.loseReference e)).note (.referenceReleased e))
  /-- The last reference goes away, and the bus is told at once. -/
  | releaseLast {w : World} {e : Key Endpoint} {plan : BusPlan Script}
      (hspare : 0 < w.state.spare e)
      (hreferences : (w.state.endpoints.get e).references = 1)
      (hplan : w.state.KeepsLabel (w.state.busOf e) plan) :
      Change hands w
        ((((w.alter (·.loseReference e)).note (.referenceReleased e)).alter
          (·.setPlan (w.state.busOf e) plan)).note (.endpointFarewell (w.state.busOf e) e))
  | setToggle {w : World} (e : Key Endpoint) (value : Bool) (v : View) :
      Change hands w
        ((w.alter fun s => { s with
          endpoints := s.endpoints.modify e fun x => { x with toggle := value } }).noteUnder
            v (.toggleSet e value))
  | advanceToggle {w : World} (e : Key Endpoint) :
      Change hands w
        ((w.alter fun s =>
          { s with endpoints := s.endpoints.modify e fun x => { x with toggle := !x.toggle } }).note
            (.toggleAdvanced e))
  /-- An occurrence is recorded that changes nothing by itself. -/
  | note {w : World} {o : Occurrence} (v : View) (hfits : o.Fits w.state)
      (htouch : ∀ b, o.batch? = some b → hands.MayTouch b)
      (hend : ∀ b, o.endOf? = some b → hands.MayEnd b)
      (hyields : o.Yields → v = .unlocked) :
      Change hands w (w.noteUnder v o)
  /-- An endpoint is installed in a table that has a name, and no installed one matches its
  target. -/
  | install {w : World} {t : Key Table} {e : Key Endpoint} (hspare : 0 < w.state.spare e)
      (hnamed : t ∈ w.state.directory.tables.values)
      (hlookup : (w.state.tables.get t).lookup? w.state.targetOf (w.state.targetOf e) = none) :
      Change hands w ((w.noteUnder (.table t) (.registered t e)).alter (·.install t e))
  | uninstall {w : World} {t : Key Table} {slot : Nat} {e : Key Endpoint} {s : State}
      {m : Moment} {earlier : List Moment}
      (hslot : w.state.uninstall? t slot = some (e, s))
      (hhistory : w.history = m :: earlier)
      (hm : m.occurrence.Uninstalls t e (w.state.targetOf e)) :
      Change hands w (w.alter fun _ => s)
  /-- A table that lost its name goes away. -/
  | giveUpTable {w : World} {t : Key Table} (ht : t.index < w.state.tables.size)
      (hnamed : t ∉ w.state.directory.tables.values) :
      Change hands w ((w.note (.tableGivenUp t)).alter (·.clearTable t))
  | push {w : World} {q : Key Queue} (c : Completion) (hq : q.index < w.state.queues.size) :
      Change hands w
        ((w.alter (·.setQueue q fun queue => { queue with
          pending := queue.pending ++ [c] })).noteUnder (.queue q) (.pushed q c))
  | handOut {w : World} {q : Key Queue} {c : Completion} {rest : List Completion}
      (hpending : (w.state.queues.get q).pending = c :: rest) :
      Change hands w
        ((w.alter (·.setQueue q fun queue => { queue with pending := rest })).noteUnder
          (.queue q) (.handedOut q c))
  | wake {w : World} {q : Key Queue} {waker : Waker}
      (hwaker : (w.state.queues.get q).waker = some waker) :
      Change hands w
        ((w.alter (·.setQueue q fun queue => { queue with waker := none })).note
          (.woken q waker.name))
  /-- A waker is left in a queue that was found empty. -/
  | leaveWaker {w : World} {q : Key Queue} (waker : Waker)
      (hpending : (w.state.queues.get q).pending = []) :
      Change hands w (w.alter (·.setQueue q fun queue => { queue with waker := some waker }))
  | build {w : World} {e : Key Endpoint} (hspare : 0 < w.state.spare e) :
      Change hands w
        ((w.alter (·.addBatch e)).note (.batchBuilt w.state.batches.nextKey e))
  | giveUpEndpoint {w : World} {b : Key Batch} {e : Key Endpoint} (hb : hands.MayEnd b)
      (hnamed : b ∉ w.state.directory.batches.values)
      (he : (w.state.batches.get b).endpoint = some e) :
      Change hands w ((w.alter (·.detachEndpoint b)).note (.endpointGivenUp b e))
  | edit {w : World} {b : Key Batch} {t : Transfer} (hb : hands.MayTouch b)
      (hedit : (w.state.transferOf b).Edit t) :
      Change hands w (w.alter (·.setTransfer b t))
  /-- The handler of a batch gets the completion, and the buffer with it. -/
  | handOver {w : World} {b : Key Batch} {handler : Handler} (hb : hands.MayEnd b)
      (hhandler : (w.state.batches.get b).handler = some handler) :
      Change hands w
        ((w.alter fun s =>
            (s.detachHandler b).setTransfer b (s.transferOf b).withoutBuffer).note
          (.handlerInvoked b handler.serial handler.name? (w.state.transferOf b).completion))
  | detachHandler {w : World} {b : Key Batch} {handler : Handler} (hb : hands.MayTouch b)
      (hhandler : (w.state.batches.get b).handler = some handler) :
      Change hands w (w.alter (·.detachHandler b))
  | attachHandler {w : World} {b : Key Batch} {action : HandlerAction}
      {captured : List (Key Endpoint)} {noisy : Bool} (hb : hands.MayTouch b)
      (hsize : b.index < w.state.batches.size)
      (hnone : (w.state.batches.get b).handler = none)
      (hspare : ∀ e, captured.count e ≤ w.state.spare e) (hforwards : w.state.Forwards action) :
      Change hands w
        ((w.alter (·.attachHandler b action captured noisy)).note
          (.handlerAttached b w.state.serial))
  | detachData {w : World} {b : Key Batch} {a : Attachment} (hb : hands.MayTouch b)
      (hdata : (w.state.batches.get b).data = some a) :
      Change hands w (w.alter (·.detachData b))
  | attachData {w : World} {b : Key Batch} {value : DataValue} (hb : hands.MayTouch b)
      (hsize : b.index < w.state.batches.size)
      (hnone : (w.state.batches.get b).data = none)
      (hspare : ∀ e, value.captured.count e ≤ w.state.spare e) :
      Change hands w
        ((w.alter (·.attachData b value)).note (.dataAttached b w.state.serial))
  | changeData {w : World} {b : Key Batch} {a : Attachment} {change : DataChange}
      {value : DataValue} (hb : hands.MayTouch b)
      (hdata : (w.state.batches.get b).data = some a)
      (hchange : a.value.change? change = some value) :
      Change hands w
        (w.alter fun s => { s with
          batches := s.batches.modify b fun batch =>
            { batch with data := some { a with value := value } } })
  | keepHandle {w : World} (name : String) {e : Key Endpoint} (hspare : 0 < w.state.spare e) :
      Change hands w (w.alter (·.keepHandle name e))
  | takeHandle {w : World} {name : String} {handle : Handle}
      (hfind : w.state.directory.handles.find? name = some handle)
      (hloan : handle ∉ w.state.directory.loans) :
      Change hands w (w.alter (·.takeHandle name))
  | lend {w : World} {handle : Handle} (hhandle : handle ∈ w.state.directory.handles.values) :
      Change hands w
        (w.alter (·.setDirectory fun d => { d with loans := handle :: d.loans }))
  | unlend {w : World} {handle : Handle} (hhandle : handle ∈ w.state.directory.loans) :
      Change hands w
        (w.alter (·.setDirectory fun d => { d with loans := d.loans.erase handle }))
  | nameBatch {w : World} (name : String) {b : Key Batch} (hb : hands.MayEnd b)
      (hsize : b.index < w.state.batches.size)
      (hnamed : b ∉ w.state.directory.batches.values)
      (hendpoint : (w.state.batches.get b).endpoint.isSome) :
      Change hands w
        (w.alter (·.setDirectory fun d => { d with batches := d.batches.insert name b }))
  | unnameBatch {w : World} {name : String} {b : Key Batch}
      (hfind : w.state.directory.batches.find? name = some b) :
      Change hands w
        (w.alter (·.setDirectory fun d => { d with batches := d.batches.erase name }))

/-- A sequence of changes. -/
abbrev Changes (hands : Hands) : World → World → Prop :=
  Relation.ReflTransGen (Change hands)

end UsbTransfer
