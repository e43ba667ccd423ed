import UsbTransfer.Failure
import UsbTransfer.Target

/-!
# Summaries

The line that stands for a batch in logs: what it was to transfer, where, and what came of it.
-/

namespace UsbTransfer

/-- What a log tells of a batch. -/
structure Summary where
  target : Target
  transferType : TransferType
  actual : Nat
  requested : Nat
  status : Status
deriving DecidableEq, Repr, Inhabited

/-- The text of a summary: `[target type] actual/requestedB status`. -/
def Summary.text (s : Summary) : String :=
  "[" ++ s.target.text ++ " " ++ s.transferType.word ++ "] " ++ toString s.actual ++ "/" ++
    toString s.requested ++ "B " ++ s.status.text

end UsbTransfer
