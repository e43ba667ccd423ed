import UsbTransfer.Arena
import UsbTransfer.Script
import UsbTransfer.Slots

/-!
# Objects

The objects that the library keeps: buses, endpoints, tables of endpoints, queues of completions
and batches.  An endpoint counts the references on it.  A batch owns one reference on its endpoint
until it is released, and whatever its handler and its attached value own.
-/

namespace UsbTransfer

/-- A bus: the name it is reported by, and what it does. -/
structure Bus where
  name : String
  plan : BusPlan Script
deriving Inhabited

/-- An endpoint of a device. -/
structure Endpoint where
  descriptor : Descriptor
  bus : Key Bus
  /-- The data toggle of the next packet; `false` is DATA0. -/
  toggle : Bool
  /-- The number of references; none is left when the endpoint is freed. -/
  references : Nat

instance : Inhabited Endpoint := ⟨⟨default, ⟨0⟩, false, 0⟩⟩

namespace Endpoint

/-- The target of an endpoint. -/
def target (e : Endpoint) : Target := e.descriptor.target

/-- The figure of an endpoint. -/
def figure (e : Endpoint) : Figure :=
  .record "Endpoint"
    [("descriptor", e.descriptor.figure), ("toggle", .ofBool e.toggle),
      ("refs", .ofNat e.references)] false

end Endpoint

/-- Whether a container may be looked at and changed. -/
inductive Lock where
  | free
  | held
  /-- A fault struck while the lock was held, and what it guards is not to be trusted. -/
  | poisoned
deriving DecidableEq, Repr, Inhabited

/-- A table of installed endpoints.  It owns a reference on each of them. -/
structure Table where
  slots : Slots (Key Endpoint)
  lock : Lock

instance : Inhabited Table := ⟨⟨.empty, .free⟩⟩

/-- A queue of completions, the oldest first, and whom to wake when the next one arrives. -/
structure Queue where
  pending : List Completion
  waker : Option Waker
  lock : Lock

instance : Inhabited Queue := ⟨⟨[], none, .free⟩⟩

/-- What a handler does with the completion. -/
inductive HandlerAction where
  /-- It runs user code and answers. -/
  | run (name : String) (code : Option Script) (reply : Option UsbError)
  /-- It passes the completion on to a queue. -/
  | forward (queue : Key Queue)

/-- A handler of completions.  Every registration has a serial number of its own. -/
structure Handler where
  serial : Nat
  action : HandlerAction
  /-- The endpoints on which the handler owns references. -/
  captured : List (Key Endpoint)
  noisy : Bool

/-- The name of a handler that runs user code. -/
def Handler.name? (h : Handler) : Option String :=
  match h.action with
  | .run name _ _ => some name
  | .forward _ => none

/-- A value attached to a batch. -/
inductive DataValue where
  | number (value : UInt64)
  | text (value : String)
  | noisy (value : String)
  /-- The value owns a reference on the endpoint. -/
  | handle (endpoint : Key Endpoint)
deriving DecidableEq

namespace DataValue

/-- The type of an attached value. -/
def type : DataValue → DataType
  | .number _ => .number
  | .text _ => .text
  | .noisy _ => .noisy
  | .handle _ => .handle

/-- The endpoints on which the value owns references. -/
def captured : DataValue → List (Key Endpoint)
  | .handle endpoint => [endpoint]
  | _ => []

/-- What the value tells when it is destroyed. -/
def lastWords? : DataValue → Option String
  | .noisy words => some words
  | _ => none

/-- The value after a change; only a value of the right type can be changed. -/
def change? (v : DataValue) : DataChange → Option DataValue
  | .add amount =>
      match v with
      | .number value => some (.number (value + amount))
      | _ => none
  | .append more =>
      match v with
      | .text value => some (.text (value ++ more))
      | _ => none

end DataValue

/-- An attached value.  Every attachment has a serial number of its own. -/
structure Attachment where
  serial : Nat
  value : DataValue
deriving DecidableEq

/-- A batch: its plain data and what it owns. -/
structure Batch where
  transfer : Transfer
  /-- The endpoint on which the batch owns a reference until it is released. -/
  endpoint : Option (Key Endpoint)
  handler : Option Handler
  data : Option Attachment

instance : Inhabited Batch := ⟨⟨default, none, none, none⟩⟩

end UsbTransfer
