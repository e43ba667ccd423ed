import UsbTransfer.Names
import UsbTransfer.Table

/-!
# States

All objects, and the names by which commands know them.  A reference on an endpoint is owned by
exactly one place: by a named handle, by a table, by a batch, its handler or its attached value,
or it is in flight, which means that an operation in progress holds it.
-/

namespace UsbTransfer

/-- A named reference on an endpoint.  Its serial number tells it from other references. -/
structure Handle where
  serial : Nat
  endpoint : Key Endpoint
deriving DecidableEq

/-- The objects that have names. -/
structure Directory where
  buses : Names (Key Bus)
  handles : Names Handle
  tables : Names (Key Table)
  batches : Names (Key Batch)
  queues : Names (Key Queue)
  wakers : Names Waker
  /-- The handles that operations in progress use without owning them, one entry for each use. -/
  loans : List Handle

/-- No names at all. -/
def Directory.empty : Directory :=
  ⟨.empty, .empty, .empty, .empty, .empty, .empty, []⟩

/-- All objects and their names. -/
structure State where
  buses : Arena Bus
  endpoints : Arena Endpoint
  tables : Arena Table
  queues : Arena Queue
  batches : Arena Batch
  directory : Directory
  /-- The endpoints on which operations in progress own references, one entry for each. -/
  inFlight : List (Key Endpoint)
  /-- The next serial number. -/
  serial : Nat

namespace State

/-- The state without objects. -/
def empty : State :=
  ⟨.empty, .empty, .empty, .empty, .empty, .empty, [], 0⟩

/-- The target of an endpoint. -/
def targetOf (s : State) (e : Key Endpoint) : Target :=
  (s.endpoints.get e).target

/-- The bus of an endpoint. -/
def busOf (s : State) (e : Key Endpoint) : Key Bus :=
  (s.endpoints.get e).bus

/-- The plain data of a batch. -/
def transferOf (s : State) (b : Key Batch) : Transfer :=
  (s.batches.get b).transfer

/-- The label of a bus. -/
def labelOf (s : State) (bus : Key Bus) : String :=
  (s.buses.get bus).plan.label

end State

end UsbTransfer
