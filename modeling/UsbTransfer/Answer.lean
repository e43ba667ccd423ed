import UsbTransfer.Custody

/-!
# Answers

What a command answers: a value, or why there is none.  Answers are taken at one moment and keep
what they tell from then on.
-/

namespace UsbTransfer

/-- What is told of an endpoint. -/
structure EndpointView where
  descriptor : Descriptor
  toggle : Bool
  references : Nat
  busLabel : String
deriving DecidableEq, Repr

/-- What is told of an endpoint whose handle was just taken from somewhere. -/
structure HandleView where
  target : Target
  references : Nat
  toggle : Bool
deriving DecidableEq, Repr

/-- What is told of a batch: its plain data, and the references on its endpoint unless it was
released. -/
structure BatchView where
  transfer : Transfer
  endpointReferences : Option Nat
deriving DecidableEq, Repr

namespace State

/-- What is told of an endpoint now. -/
def endpointView (s : State) (e : Key Endpoint) : EndpointView :=
  let endpoint := s.endpoints.get e
  ⟨endpoint.descriptor, endpoint.toggle, endpoint.references, s.labelOf endpoint.bus⟩

/-- What is told of a handle on an endpoint now. -/
def handleView (s : State) (e : Key Endpoint) : HandleView :=
  let endpoint := s.endpoints.get e
  ⟨endpoint.target, endpoint.references, endpoint.toggle⟩

/-- What is told of a batch now. -/
def batchView (s : State) (b : Key Batch) : BatchView :=
  let batch := s.batches.get b
  ⟨batch.transfer, batch.endpoint.map fun e => (s.endpoints.get e).references⟩

end State

/-- The value that a command answers. -/
inductive Answer where
  | done
  | nothing
  | flag (value : Bool)
  | count (value : Nat)
  /-- The size of a container. -/
  | size (value : Nat)
  | text (value : String)
  | target (value : Target)
  | endpoint (value : EndpointView)
  | handle (value : HandleView)
  | handles (values : List HandleView)
  | batch (value : BatchView)
  | completion (value : Completion)
  | pending
deriving DecidableEq, Repr

/-- Why a command has no value to answer. -/
inductive Refusal where
  /-- The operation failed. -/
  | failed (error : UsbError)
  /-- The command cannot be carried out as it was given. -/
  | mistaken (mistake : Mistake)
  /-- The operation was given up. -/
  | faulted (fault : Fault)
deriving DecidableEq, Repr

/-- What a command answers. -/
abbrev Result := Except Refusal Answer

instance : DecidableEq Result
  | .ok a, .ok b => decidable_of_iff (a = b) (by simp)
  | .error a, .error b => decidable_of_iff (a = b) (by simp)
  | .ok _, .error _ => .isFalse (by simp)
  | .error _, .ok _ => .isFalse (by simp)

end UsbTransfer
