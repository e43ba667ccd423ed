import UsbTransfer.Summary

/-!
# Faults

A fault ends every operation in progress, up to the command that was given from outside.  Some
report that an operation was used against its contract, one is raised by user code, and the rest
would betray an error of this library.
-/

namespace UsbTransfer

/-- Why the operations in progress are given up. -/
inductive Fault where
  /-- User code gave up. -/
  | raised (message : String)
  /-- A batch was marked as scheduled a second time. -/
  | scheduledTwice (batch : Summary)
  /-- A setup packet was given to a batch that is no control transfer. -/
  | setupWithoutControl (actual : TransferType)
  /-- A released batch was to reset toggles. -/
  | batchReleased
  /-- A reference was taken on an endpoint that has none left. -/
  | takenAfterRelease
  /-- A reference was released on an endpoint that has none left. -/
  | releasedTwice
  /-- A vacant slot was to be vacated. -/
  | slotVacant
  /-- A lock was to be taken while it was held. -/
  | lockHeld
  /-- A lock was to be taken after a fault had struck while it was held. -/
  | lockPoisoned
deriving DecidableEq, Repr

/-- The message of a fault. -/
def Fault.message : Fault → String
  | .raised message => message
  | .scheduledTwice batch =>
      "assertion `left == right` failed: batch " ++ batch.text ++
        " scheduled twice\n  left: Scheduled\n right: Created"
  | .setupWithoutControl actual =>
      "assertion `left == right` failed\n  left: " ++ actual.word ++ "\n right: Control"
  | .batchReleased => "batch should have an endpoint until destroyed"
  | .takenAfterRelease => "add_ref on a released endpoint"
  | .releasedTwice => "del_ref on a released endpoint"
  | .slotVacant => "invalid key"
  | .lockHeld => "cannot recursively acquire mutex"
  | .lockPoisoned =>
      "called `Result::unwrap()` on an `Err` value: PoisonError \x7b .. \x7d"

end UsbTransfer
