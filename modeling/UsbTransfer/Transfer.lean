import UsbTransfer.Completion
import UsbTransfer.Fault

/-!
# Transfers

The plain data of a batch: what it was created for, what is to be transferred and what came of
it.  The description of the endpoint is copied at creation and never changes.  The requested
length follows the buffer until the buffer is handed over with the completion, and stays behind
then.
-/

namespace UsbTransfer

/-- The first stage of a control transfer. -/
abbrev SetupPacket := Vector UInt8 8

/-- Whether a batch was handed to its controller. -/
inductive Phase where
  | created
  | scheduled
deriving DecidableEq, Repr, Inhabited

/-- The name of a phase. -/
def Phase.word : Phase → String
  | .created => "Created"
  | .scheduled => "Scheduled"

/-- The plain data of a batch. -/
structure Transfer where
  descriptor : Descriptor
  phase : Phase
  scope : ResetScope
  setup : SetupPacket
  buffer : List UInt8
  requested : Nat
  status : Status
  actual : Nat
deriving DecidableEq, Repr

namespace Transfer

/-- A fresh transfer on an endpoint of the given description. -/
def ofDescriptor (d : Descriptor) : Transfer where
  descriptor := d
  phase := .created
  scope := .ofTransferType d.transferType
  setup := Vector.replicate 8 0
  buffer := []
  requested := 0
  status := .ok
  actual := 0

instance : Inhabited Transfer := ⟨ofDescriptor default⟩

/-- The target that the transfer was created for. -/
def target (t : Transfer) : Target := t.descriptor.target

/-- The summary of a transfer. -/
def summary (t : Transfer) : Summary where
  target := t.target
  transferType := t.descriptor.transferType
  actual := t.actual
  requested := t.requested
  status := t.status

/-- The figure of a transfer; it leaves out the bytes. -/
def figure (t : Transfer) : Figure :=
  .record "TransferBatch"
    [("descriptor", t.descriptor.figure), ("state", .word t.phase.word),
      ("toggle_reset", .word t.scope.word), ("requested_len", .ofNat t.requested),
      ("status", t.status.figure), ("actual_len", .ofNat t.actual)] true

/-- Overrides the scope chosen at creation. -/
def setScope (t : Transfer) (scope : ResetScope) : Transfer :=
  { t with scope := scope }

/-- Only control transfers have a setup stage. -/
def setSetup (t : Transfer) (setup : SetupPacket) : Except Fault Transfer :=
  if t.descriptor.transferType = .control then .ok { t with setup := setup }
  else .error (.setupWithoutControl t.descriptor.transferType)

/-- Takes a buffer, all of which is to be transferred. -/
def setBuffer (t : Transfer) (data : List UInt8) : Transfer :=
  { t with buffer := data, requested := data.length }

/-- No buffer is longer, however much memory there is. -/
def longest : Nat := 9223372036854775807

/-- The memory for a buffer is had if it is granted.  An empty buffer needs none, and a buffer that
would be too long is not asked for. -/
def Obtains (length : Nat) (granted : Bool) : Prop :=
  length = 0 ∨ length ≤ longest ∧ granted

instance (length : Nat) (granted : Bool) : Decidable (Obtains length granted) :=
  inferInstanceAs (Decidable (_ ∨ _))

/-- A buffer of zeros, unless the memory for it cannot be had. -/
def allocBuffer? (t : Transfer) (length : Nat) (granted : Bool) : Option Transfer :=
  if Obtains length granted then some (t.setBuffer (List.replicate length 0)) else none

/-- Overwrites a part of the buffer; the part has to lie within it. -/
def write? (t : Transfer) (start : Nat) (bytes : List UInt8) : Option Transfer :=
  if start + bytes.length ≤ t.buffer.length then
    some { t with buffer := t.buffer.take start ++ bytes ++ t.buffer.drop (start + bytes.length) }
  else none

/-- Records what the controller reports. -/
def complete (t : Transfer) (status : Status) (actual : Nat) : Transfer :=
  { t with status := status, actual := actual }

/-- Records that the transfer was cancelled; what had been transferred by then stays recorded. -/
def cancel (t : Transfer) : Transfer :=
  { t with status := .failed .cancelled }

/-- Hands the transfer to its controller, which happens once. -/
def schedule (t : Transfer) : Except Fault Transfer :=
  match t.phase with
  | .created => .ok { t with phase := .scheduled }
  | .scheduled => .error (.scheduledTwice t.summary)

/-- Toggles have to be reset when the transfer failed and its scope is not empty. -/
def NeedsReset (t : Transfer) : Prop :=
  t.status.IsFailure ∧ t.scope ≠ .nothing

instance (t : Transfer) : Decidable t.NeedsReset :=
  inferInstanceAs (Decidable (_ ∧ _))

/-- What is told of the transfer when it ends. -/
def completion (t : Transfer) : Completion where
  target := t.target
  status := t.status
  actual := t.actual
  data := t.buffer

/-- The transfer after its buffer was handed over. -/
def withoutBuffer (t : Transfer) : Transfer :=
  { t with buffer := [] }

end Transfer

end UsbTransfer
