import UsbTransfer.Failure
import UsbTransfer.Target

/-!
# Completions

A completion tells how a batch ended: for which target it was created, with what status, how many
bytes were transferred, and the buffer.  The buffer is handed over whole; of an inbound transfer
only its first `actual` bytes were received.
-/

namespace UsbTransfer

/-- How a batch ended. -/
structure Completion where
  target : Target
  status : Status
  actual : Nat
  data : List UInt8
deriving DecidableEq, Repr, Inhabited

namespace Completion

/-- The figure of a completion. -/
def figure (c : Completion) : Figure :=
  .record "Completion"
    [("target", c.target.figure), ("status", c.status.figure), ("actual_len", .ofNat c.actual),
      ("data", .list (c.data.map fun byte => .ofNat byte.toNat))] false

end Completion

end UsbTransfer
