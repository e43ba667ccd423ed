import UsbTransfer.Answer

/-!
# Histories

All that happens is recorded, each occurrence together with the state in which it happened.  The
state of an occurrence that hands control to user code is what that code finds.  What is logged
and what is reported to the outside is read off the history.
-/

namespace UsbTransfer

/-- What can happen. -/
inductive Occurrence where
  /-- An endpoint came into being, with one reference on it. -/
  | endpointCreated (endpoint : Key Endpoint)
  /-- One more reference on an endpoint. -/
  | referenceTaken (endpoint : Key Endpoint)
  /-- One reference less. -/
  | referenceReleased (endpoint : Key Endpoint)
  /-- A bus is told that no reference on an endpoint is left. -/
  | endpointFarewell (bus : Key Bus) (endpoint : Key Endpoint)
  /-- An endpoint without references was freed. -/
  | endpointFreed (endpoint : Key Endpoint) (reply : FarewellReply)
  /-- The toggle of an endpoint was set. -/
  | toggleSet (endpoint : Key Endpoint) (value : Bool)
  /-- The toggle of an endpoint was advanced. -/
  | toggleAdvanced (endpoint : Key Endpoint)
  /-- An endpoint was installed in a table. -/
  | registered (table : Key Table) (endpoint : Key Endpoint)
  /-- An endpoint was not installed since another one matches its target. -/
  | registrationRefused (table : Key Table) (endpoint : Key Endpoint)
  /-- An endpoint was uninstalled that matches the target. -/
  | unregistered (table : Key Table) (target : Target) (endpoint : Key Endpoint)
  /-- The endpoints of a device, that many, are about to be uninstalled. -/
  | deviceUnregistered (table : Key Table) (address : UInt8) (count : Nat)
  /-- A table is given up, with all that is installed in it. -/
  | tableGivenUp (table : Key Table)
  /-- A table reset the toggles of these endpoints. -/
  | tableReset (table : Key Table) (endpoints : List (Key Endpoint))
  /-- A bus had its table reset that many toggles. -/
  | tableResetByBus (bus : Key Bus) (count : Nat)
  /-- A bus is asked for a batch on an endpoint. -/
  | batchRequested (bus : Key Bus) (endpoint : Key Endpoint)
  /-- A batch came into being, with a reference on the endpoint. -/
  | batchBuilt (batch : Key Batch) (endpoint : Key Endpoint)
  /-- A batch was created by way of a bus. -/
  | batchCreated (batch : Key Batch) (bus : Key Bus)
  /-- A batch was refused a buffer of that length. -/
  | bufferRefused (batch : Key Batch) (length : Nat)
  /-- A batch is about to have toggles reset. -/
  | togglesResetting (batch : Key Batch)
  /-- A bus is asked to reset toggles, by a batch or from outside. -/
  | resetRequested (bus : Key Bus) (asker : Option (Key Batch)) (target : Target)
      (scope : ResetScope)
  /-- A batch begins to finish. -/
  | finishing (batch : Key Batch)
  /-- The toggles were not reset. -/
  | resetFailed (batch : Key Batch) (error : UsbError)
  /-- The handler of a batch reported an error. -/
  | handlerFailed (batch : Key Batch) (error : UsbError)
  /-- A batch gave up its reference on its endpoint. -/
  | endpointGivenUp (batch : Key Batch) (endpoint : Key Endpoint)
  /-- A bus is told that a batch goes away. -/
  | batchFarewell (bus : Key Bus) (batch : Key Batch)
  /-- A bus was told that a batch goes away. -/
  | batchReleased (batch : Key Batch) (reply : FarewellReply)
  /-- A batch ended, with all it owned. -/
  | batchEnded (batch : Key Batch)
  /-- A handler was given to a batch. -/
  | handlerAttached (batch : Key Batch) (handler : Nat)
  /-- The handler of a batch receives its completion; handlers that run user code have names. -/
  | handlerInvoked (batch : Key Batch) (handler : Nat) (name : Option String)
      (completion : Completion)
  /-- A handler that was given to a batch was destroyed; noisy ones tell their names. -/
  | handlerDestroyed (batch : Key Batch) (handler : Nat) (lastWords : Option String)
  /-- A value was attached to a batch. -/
  | dataAttached (batch : Key Batch) (attachment : Nat)
  /-- An attached value was taken from its batch. -/
  | dataTaken (batch : Key Batch) (attachment : Nat)
  /-- A value that was attached to a batch was destroyed. -/
  | dataDestroyed (batch : Key Batch) (attachment : Nat) (lastWords : Option String)
  /-- A completion was appended to a queue. -/
  | pushed (queue : Key Queue) (completion : Completion)
  /-- A completion was taken from a queue. -/
  | handedOut (queue : Key Queue) (completion : Completion)
  /-- A waker waits for the next completion of a queue. -/
  | waiting (queue : Key Queue) (waker : String)
  /-- A waker was woken by a queue. -/
  | woken (queue : Key Queue) (waker : String)
  /-- A command of a script was carried out. -/
  | stepEnded (result : Result)
  /-- A script was skipped since too many are running. -/
  | tooDeep
  /-- A fault was raised by an object that was released at the end. -/
  | faultAtEnd (fault : Fault)

/-- An occurrence and the state in which it happened. -/
structure Moment where
  occurrence : Occurrence
  state : State

end UsbTransfer
