import UsbTransfer.Failure

/-!
# Hooks

A host controller's bus may provide four operations of its own.  Each is asked for anew at every
call and may decline, and then the general behaviour takes its place.  What a bus does at its
calls is laid down as a schedule: one behaviour for each call, of which the last one stays in
force.
-/

namespace UsbTransfer

/-- Behaviours for the calls to come; the last one is not used up. -/
structure Schedule (α : Type) where
  behaviours : List α
deriving Repr

namespace Schedule

variable {α : Type}

/-- The behaviour for the next call. -/
def current? (s : Schedule α) : Option α :=
  s.behaviours.head?

/-- The schedule after one more call. -/
def advance (s : Schedule α) : Schedule α :=
  match s.behaviours with
  | _ :: next :: rest => ⟨next :: rest⟩
  | _ => s

end Schedule

/-- What happens at one call: user code runs, and then an answer is given. -/
structure Hook (Code Reply : Type) where
  code : Option Code
  reply : Reply

/-- The answers to the request for a batch. -/
inductive BuildReply where
  /-- The bus leaves it to the general behaviour. -/
  | declined
  /-- A batch was built, on the endpoint asked for or on the named one. -/
  | built (on : Option String)
  /-- No batch could be built. -/
  | failed (error : UsbError)
deriving DecidableEq, Repr

/-- The answers to the request to reset toggles. -/
inductive ResetReply where
  /-- The bus has no way to do it. -/
  | declined
  /-- It was done. -/
  | done
  /-- It could not be done. -/
  | failed (error : UsbError)
deriving DecidableEq, Repr

/-- The outcome that an answer stands for, if the bus has a way to reset toggles. -/
def ResetReply.outcome? : ResetReply → Option (Except UsbError Unit)
  | .declined => none
  | .done => some (.ok ())
  | .failed error => some (.error error)

/-- The answers to the news that an object goes away. -/
inductive FarewellReply where
  /-- The bus has nothing to do. -/
  | declined
  /-- The bus released what it held. -/
  | done
deriving DecidableEq, Repr

/-- A bus that keeps a table of endpoints resets their toggles there first. -/
structure ResetAction where
  table : Option String
  reply : ResetReply
deriving DecidableEq, Repr

/-- The label that a bus goes by in logs, and what it does when it is called.  The calls of a
silent bus are not reported. -/
structure BusPlan (Code : Type) where
  label : String
  silent : Bool
  batchCreate : Schedule (Hook Code BuildReply)
  batchDestroy : Schedule (Hook Code FarewellReply)
  toggleReset : Schedule (Hook Code ResetAction)
  endpointDestroy : Schedule (Hook Code FarewellReply)

namespace BusPlan

/-- A bus that provides nothing. -/
def bare (Code : Type) : BusPlan Code :=
  ⟨"usb", true, ⟨[]⟩, ⟨[]⟩, ⟨[]⟩, ⟨[]⟩⟩

instance (Code : Type) : Inhabited (BusPlan Code) := ⟨bare Code⟩

end BusPlan

end UsbTransfer
