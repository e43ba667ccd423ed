import UsbTransfer.Session.Endpoints

/-!
# Commands on batches

A batch that ends loses its name before that.  In the scripts of the hooks that have a batch at
hand, that batch can be used by a name of its own, but not be ended.
-/

namespace UsbTransfer
namespace Session

open Run

/-- Creates a batch by way of the bus of an endpoint. -/
def createBatch (play : Player) (handle name : String) : Run Result := do
  match (← getState).directory.handles.find? handle with
  | none => refuse (.unknown .endpoint handle)
  | some h =>
      lending play h do
        match ← Batch.create play h.endpoint with
        | .error error => return .error (.failed error)
        | .ok b => do
            let view := (← getState).batchView b
            keepBatch play name b
            return .ok (.batch view)

/-- Builds a batch on an endpoint without asking its bus. -/
def newBatch (play : Player) (handle name : String) : Run Result :=
  withEndpoint handle fun e => do
    let b ← Batch.build e
    let view := (← getState).batchView b
    keepBatch play name b
    return .ok (.batch view)

/-- Ends a named batch. -/
def endBatch (name : String) (ending : Key Batch → Run Unit) : Run Result := do
  match ← takeBatch name with
  | .error mistake => refuse mistake
  | .ok b => do
      ending b
      return .ok .done

/-- Tells all about a batch. -/
def batchInfo (b : Key Batch) : Run Result := do
  return .ok (.batch ((← getState).batchView b))

/-- Shows a batch. -/
def batchText (b : Key Batch) (style : Style) : Run Result := do
  let transfer := (← getState).transferOf b
  match style with
  | .line => return .ok (.text transfer.summary.text)
  | .compact => return .ok (.text transfer.figure.compact)
  | .pretty => return .ok (.text transfer.figure.pretty)

/-- Takes a reference on the endpoint of a batch, unless the batch was released. -/
def batchEndpoint (play : Player) (b : Key Batch) (keep : Option String) : Run Result := do
  match ((← getState).batches.get b).endpoint with
  | none => return .ok .nothing
  | some e => do
      Endpoint.acquire e
      let view := (← getState).handleView e
      keepOrRelease play keep e
      return .ok (.handle view)

/-- Tells whether a batch is on the endpoint of a handle, unless the batch was released. -/
def batchIsOn (b : Key Batch) (handle : String) : Run Result :=
  withEndpoint handle fun e => do
    match ((← getState).batches.get b).endpoint with
    | none => return .ok .nothing
    | some e' => return .ok (.flag (e' = e))

/-- Changes the plain data of a batch. -/
def changeTransfer (b : Key Batch) (f : Transfer → Transfer) : Run Result := do
  Batch.modifyTransfer b f
  return .ok .done

/-- Gives a setup packet to a batch. -/
def setSetup (b : Key Batch) (setup : SetupPacket) : Run Result := do
  Batch.setSetup b setup
  return .ok .done

/-- Allocates a buffer. -/
def allocBuffer (b : Key Batch) (length : Nat) (granted : Bool) : Run Result := do
  match ← Batch.allocBuffer b length granted with
  | .ok () => return .ok .done
  | .error error => return .error (.failed error)

/-- Overwrites a part of the buffer. -/
def write (b : Key Batch) (start : Nat) (bytes : List UInt8) : Run Result := do
  match ((← getState).transferOf b).write? start bytes with
  | none => refuse .outOfRange
  | some transfer => changeTransfer b fun _ => transfer

/-- Marks a batch as handed to its controller. -/
def schedule (b : Key Batch) : Run Result := do
  Batch.schedule b
  return .ok .done

/-- Has toggles reset if the transfer failed. -/
def resetToggle (play : Player) (b : Key Batch) : Run Result := do
  match ← Batch.resetToggles play b with
  | .ok () => return .ok .done
  | .error error => return .error (.failed error)

/-- Gives a handler to a batch. -/
def onComplete (play : Player) (b : Key Batch) (handler : HandlerSpec Script) : Run Result := do
  match ← takeHandles play [] handler.captured with
  | .error mistake => refuse mistake
  | .ok captured => do
      let action := HandlerAction.run handler.name handler.code handler.reply
      Batch.attachHandler play b action captured handler.noisy
      return .ok .done

/-- Has a batch deliver to a queue. -/
def toQueue (play : Player) (b : Key Batch) (queue : String) : Run Result := do
  match (← getState).directory.queues.find? queue with
  | none => refuse (.unknown .queue queue)
  | some q => do
      Batch.attachHandler play b (.forward q) [] false
      return .ok .done

/-- The value to attach; a named handle is moved into flight. -/
def takeValue : DataSpec → Run (Except Mistake DataValue)
  | .number value => return .ok (.number value)
  | .text value => return .ok (.text value)
  | .noisy value => return .ok (.noisy value)
  | .handle name => do
      match ← takeHandle name with
      | .error mistake => return .error mistake
      | .ok e => return .ok (.handle e)

/-- Attaches a value to a batch. -/
def setData (play : Player) (b : Key Batch) (spec : DataSpec) : Run Result := do
  match ← takeValue spec with
  | .error mistake => refuse mistake
  | .ok value => do
      Batch.attachData play b value
      return .ok .done

/-- What is told of an attached value. -/
def dataAnswer (s : State) : DataValue → Answer
  | .number value => .count value.toNat
  | .text value => .text value
  | .noisy value => .text value
  | .handle e => .target (s.targetOf e)

/-- Tells the attached value if it has the right type. -/
def getData (b : Key Batch) (type : DataType) : Run Result := do
  let s ← getState
  match (s.batches.get b).data with
  | none => return .ok .nothing
  | some a => return .ok (if a.value.type = type then dataAnswer s a.value else .nothing)

/-- Changes the attached value if it has the right type, and tells the new one. -/
def changeData (b : Key Batch) (change : DataChange) : Run Result := do
  let s ← getState
  match (s.batches.get b).data with
  | none => return .ok .nothing
  | some a =>
      match a.value.change? change with
      | none => return .ok .nothing
      | some value => do
          Batch.modify b fun batch => { batch with data := some { a with value := value } }
          return .ok (dataAnswer s value)

/-- Takes the attached value if it has the right type.  A handle is kept under a name or released;
any other value is destroyed when the command is done. -/
def takeData (play : Player) (b : Key Batch) (type : DataType) (keep : Option String) :
    Run Result := do
  match ← Batch.takeDataOf? b type with
  | none => return .ok .nothing
  | some a =>
      match a.value with
      | .handle e => do
          let view := (← getState).handleView e
          keepOrRelease play keep e
          return .ok (.handle view)
      | value => do
          let answer := dataAnswer (← getState) value
          a.destroy play b
          return .ok answer

end Session
end UsbTransfer
