import UsbTransfer.Text.Figure
import UsbTransfer.Text.Hex
import UsbTransfer.Text.Quoted

/-!
# Failures

Two kinds of failure are kept apart.  A `UsbError` reports that an operation on the host's own
objects did not succeed.  A `TransferError` is the outcome of a transfer that the device or the
controller did not carry out.  Either can be told to a caller that only knows the failures of
input and output in general, as an `IoError`.
-/

namespace UsbTransfer

/-- The categories of a failed operation. -/
inductive ErrorKind where
  | outOfMemory
  | busy
  | notFound
  | unsupported
  | other
deriving DecidableEq, Repr, Inhabited

/-- The name of a category. -/
def ErrorKind.word : ErrorKind → String
  | .outOfMemory => "OutOfMemory"
  | .busy => "Busy"
  | .notFound => "NotFound"
  | .unsupported => "Unsupported"
  | .other => "Other"

/-- The failure of an operation: its category and what to tell the reader of a log. -/
structure UsbError where
  kind : ErrorKind
  message : String
deriving DecidableEq, Repr, Inhabited

namespace UsbError

/-- An endpoint that matches the same target is installed already. -/
def alreadyRegistered : UsbError := ⟨.busy, "endpoint already registered"⟩

/-- No installed endpoint matches the target. -/
def notRegistered : UsbError := ⟨.notFound, "endpoint not registered"⟩

/-- The memory for a buffer cannot be had. -/
def bufferRefused : UsbError := ⟨.outOfMemory, "failed to allocate batch buffer"⟩

/-- The bus has no way to reset toggles. -/
def noToggleReset : UsbError := ⟨.unsupported, "bus does not support toggle reset"⟩

/-- The figure of a failed operation. -/
def figure (e : UsbError) : Figure :=
  .record "Error" [("kind", .word e.kind.word), ("message", .word (Quoted.encode e.message))] false

end UsbError

/-- Why a transfer was not carried out. -/
inductive TransferError where
  /-- It was cancelled before it completed. -/
  | cancelled
  /-- The endpoint is halted. -/
  | stall
  /-- The device is gone. -/
  | disconnected
  /-- The hardware failed or the protocol was violated. -/
  | fault
  /-- The controller rejected the request as malformed. -/
  | invalidArgument
  /-- The controller gave a completion code without a general meaning. -/
  | unknown (code : UInt32)
deriving DecidableEq, Repr, Inhabited

namespace TransferError

/-- The sentence that tells a reader of the log what happened. -/
def text : TransferError → String
  | .cancelled => "transfer was cancelled"
  | .stall => "endpoint stalled"
  | .disconnected => "device disconnected"
  | .fault => "hardware fault or protocol violation"
  | .invalidArgument => "invalid or unsupported argument"
  | .unknown code => "unknown error (code 0x" ++ Hex.ofNat code.toNat ++ ")"

/-- The figure of a transfer failure. -/
def figure : TransferError → Figure
  | .cancelled => .word "Cancelled"
  | .stall => .word "Stall"
  | .disconnected => .word "Disconnected"
  | .fault => .word "Fault"
  | .invalidArgument => .word "InvalidArgument"
  | .unknown code => .wrapped "Unknown" (.ofNat code.toNat)

end TransferError

/-- The outcome of a transfer. -/
inductive Status where
  | ok
  | failed (error : TransferError)
deriving DecidableEq, Repr, Inhabited

namespace Status

/-- A transfer failed when its status carries an error. -/
def IsFailure (s : Status) : Prop :=
  s ≠ .ok

instance (s : Status) : Decidable s.IsFailure :=
  inferInstanceAs (Decidable (_ ≠ _))

/-- The status as it ends the summary of a batch. -/
def text : Status → String
  | .ok => "ok"
  | .failed error => error.text

/-- The figure of a status. -/
def figure : Status → Figure
  | .ok => .wrapped "Ok" (.word "()")
  | .failed error => .wrapped "Err" error.figure

end Status

/-- The categories that the failures of this library fall into among those of input and output. -/
inductive IoKind where
  | outOfMemory
  | alreadyExists
  | notFound
  | unsupported
  | interrupted
  | connectionReset
  | connectionAborted
  | invalidInput
  | other
deriving DecidableEq, Repr, Inhabited

/-- The name of a general category. -/
def IoKind.word : IoKind → String
  | .outOfMemory => "OutOfMemory"
  | .alreadyExists => "AlreadyExists"
  | .notFound => "NotFound"
  | .unsupported => "Unsupported"
  | .interrupted => "Interrupted"
  | .connectionReset => "ConnectionReset"
  | .connectionAborted => "ConnectionAborted"
  | .invalidInput => "InvalidInput"
  | .other => "Other"

/-- A failure told in general terms: its category, its sentence and the figure of the failure
that it stands for. -/
structure IoError where
  kind : IoKind
  text : String
  cause : Figure

namespace IoError

/-- The figure of a general failure. -/
def figure (e : IoError) : Figure :=
  .record "Custom" [("kind", .word e.kind.word), ("error", e.cause)] false

end IoError

/-- The general category of a failed operation. -/
def ErrorKind.toIoKind : ErrorKind → IoKind
  | .outOfMemory => .outOfMemory
  | .busy => .alreadyExists
  | .notFound => .notFound
  | .unsupported => .unsupported
  | .other => .other

/-- The general category of a transfer failure. -/
def TransferError.toIoKind : TransferError → IoKind
  | .cancelled => .interrupted
  | .stall => .connectionReset
  | .disconnected => .connectionAborted
  | .fault => .other
  | .invalidArgument => .invalidInput
  | .unknown _ => .other

/-- A failed operation in general terms. -/
def UsbError.toIoError (e : UsbError) : IoError :=
  ⟨e.kind.toIoKind, e.message, e.figure⟩

/-- A transfer failure in general terms. -/
def TransferError.toIoError (e : TransferError) : IoError :=
  ⟨e.toIoKind, e.text, e.figure⟩

end UsbTransfer
