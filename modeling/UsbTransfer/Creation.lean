import UsbTransfer.Ending

/-!
# The creation of a batch

A batch is created on an endpoint.  The bus of the endpoint may build it, also on another
endpoint, or refuse it; otherwise it is built plainly.  The batch owns a reference on the endpoint
that it was built on, and no reference is left behind when none is created.
-/

namespace UsbTransfer

open Run

namespace Batch

/-- Builds a batch on an endpoint. -/
def build (e : Key Endpoint) : Run (Key Batch) := do
  Endpoint.acquire e
  let b := (← getState).batches.nextKey
  modifyState (·.addBatch e)
  record (.batchBuilt b e)
  return b

end Batch

namespace Bus

/-- Asks a bus for a batch on an endpoint; `none` when it leaves that to the general behaviour.
The code of a bus that builds a batch has it at hand, and a fault in that code has it dropped. -/
def buildBatch (play : Player) (bus : Key Bus) (e : Key Endpoint) :
    Run (Option (Except UsbError (Key Batch))) := do
  let hook? ← nextHook bus (·.batchCreate)
    fun plan => { plan with batchCreate := plan.batchCreate.advance }
  record (.batchRequested bus e)
  match hook? with
  | none => return none
  | some hook => do
      match hook.reply with
      | .declined => do
          play.run none hook.code
          return none
      | .failed error => do
          play.run none hook.code
          return some (.error error)
      | .built on => do
          let named? := on.bind (← getState).directory.handles.find?
          let b ← Batch.build ((named?.map (·.endpoint)).getD e)
          onFault (play.run (some b) hook.code) (Batch.drop play b)
          return some (.ok b)

end Bus

namespace Batch

/-- Creates a batch on an endpoint by way of its bus. -/
def create (play : Player) (e : Key Endpoint) : Run (Except UsbError (Key Batch)) := do
  let bus := (← getState).busOf e
  match ← Bus.buildBatch play bus e with
  | some (.error error) => return .error error
  | some (.ok b) => do
      record (.batchCreated b bus)
      return .ok b
  | none => do
      let b ← build e
      record (.batchCreated b bus)
      return .ok b

/-- Allocates the buffer of a batch, if the memory is granted. -/
def allocBuffer (b : Key Batch) (length : Nat) (granted : Bool) : Run (Except UsbError Unit) := do
  match ((← getState).transferOf b).allocBuffer? length granted with
  | none => do
      record (.bufferRefused b length)
      return .error .bufferRefused
  | some transfer => do
      modifyTransfer b fun _ => transfer
      return .ok ()

/-- Marks a batch as handed to its controller. -/
def schedule (b : Key Batch) : Run Unit := do
  let transfer ← ofExcept ((← getState).transferOf b).schedule
  modifyTransfer b fun _ => transfer

/-- Gives a setup packet to a batch. -/
def setSetup (b : Key Batch) (setup : SetupPacket) : Run Unit := do
  let transfer ← ofExcept (((← getState).transferOf b).setSetup setup)
  modifyTransfer b fun _ => transfer

end Batch

end UsbTransfer
