import UsbTransfer.State

/-!
# Custody of references

The ways in which a reference on an endpoint comes into being, passes from one place to another
and goes away.  Each is a change of the state that is complete in itself: before and after it, an
endpoint counts as many references as there are places that own one.  Whatever gives a reference
away puts it in flight, and whatever takes one takes it from there.
-/

namespace UsbTransfer
namespace State

/-- An endpoint comes into being with one reference, which is in flight. -/
def addEndpoint (s : State) (bus : Key Bus) (descriptor : Descriptor) : State :=
  { s with
    endpoints := s.endpoints.push ⟨descriptor, bus, false, 1⟩
    inFlight := s.endpoints.nextKey :: s.inFlight }

/-- There is one more reference, which is in flight. -/
def gainReference (s : State) (e : Key Endpoint) : State :=
  { s with
    endpoints := s.endpoints.modify e fun x => { x with references := x.references + 1 }
    inFlight := e :: s.inFlight }

/-- A reference in flight goes away. -/
def loseReference (s : State) (e : Key Endpoint) : State :=
  { s with
    endpoints := s.endpoints.modify e fun x => { x with references := x.references - 1 }
    inFlight := s.inFlight.erase e }

/-- A table takes a reference in flight. -/
def install (s : State) (t : Key Table) (e : Key Endpoint) : State :=
  { s with
    tables := s.tables.modify t fun table => { table with slots := table.slots.insert e }
    inFlight := s.inFlight.erase e }

/-- A table gives away the reference in one of its slots, if there is one. -/
def uninstall? (s : State) (t : Key Table) (slot : Nat) : Option (Key Endpoint × State) :=
  ((s.tables.get t).slots.remove? slot).map fun (e, slots) =>
    (e, { s with
      tables := s.tables.modify t fun table => { table with slots := slots }
      inFlight := e :: s.inFlight })

theorem uninstall?_eq_some {s s' : State} {t : Key Table} {slot : Nat} {e : Key Endpoint}
    (h : s.uninstall? t slot = some (e, s')) :
    ∃ slots, (s.tables.get t).slots.remove? slot = some (e, slots) ∧
      s' = { s with
        tables := s.tables.modify t fun table => { table with slots := slots }
        inFlight := e :: s.inFlight } := by
  simp only [uninstall?, Option.map_eq_some_iff, Prod.mk.injEq, Prod.exists] at h
  obtain ⟨_, slots, hremove, rfl, rfl⟩ := h
  exact ⟨slots, hremove, rfl⟩

/-- A table gives away all its references. -/
def clearTable (s : State) (t : Key Table) : State :=
  { s with
    tables := s.tables.modify t fun table => { table with slots := .empty }
    inFlight := (s.tables.get t).slots.values ++ s.inFlight }

/-- A batch comes into being and takes a reference in flight. -/
def addBatch (s : State) (e : Key Endpoint) : State :=
  let transfer := Transfer.ofDescriptor (s.endpoints.get e).descriptor
  { s with
    batches := s.batches.push ⟨transfer, some e, none, none⟩
    inFlight := s.inFlight.erase e }

/-- A batch gives away the reference on its endpoint. -/
def detachEndpoint (s : State) (b : Key Batch) : State :=
  { s with
    batches := s.batches.modify b fun batch => { batch with endpoint := none }
    inFlight := (s.batches.get b).endpoint.toList ++ s.inFlight }

/-- A batch gives away its handler, and the handler's references with it. -/
def detachHandler (s : State) (b : Key Batch) : State :=
  { s with
    batches := s.batches.modify b fun batch => { batch with handler := none }
    inFlight := ((s.batches.get b).handler.map (·.captured)).getD [] ++ s.inFlight }

/-- A batch without a handler takes one, with a serial number of its own and with references that
are in flight. -/
def attachHandler (s : State) (b : Key Batch) (action : HandlerAction)
    (captured : List (Key Endpoint)) (noisy : Bool) : State :=
  let handler : Handler := ⟨s.serial, action, captured, noisy⟩
  { s with
    batches := s.batches.modify b fun batch => { batch with handler := some handler }
    inFlight := captured.foldl List.erase s.inFlight
    serial := s.serial + 1 }

/-- A batch gives away its attached value, and the value's references with it. -/
def detachData (s : State) (b : Key Batch) : State :=
  { s with
    batches := s.batches.modify b fun batch => { batch with data := none }
    inFlight := ((s.batches.get b).data.map (·.value.captured)).getD [] ++ s.inFlight }

/-- A batch without an attached value takes one, with a serial number of its own and with
references that are in flight. -/
def attachData (s : State) (b : Key Batch) (value : DataValue) : State :=
  { s with
    batches := s.batches.modify b fun batch => { batch with data := some ⟨s.serial, value⟩ }
    inFlight := value.captured.foldl List.erase s.inFlight
    serial := s.serial + 1 }

/-- A name takes a reference in flight, with a serial number of its own, and gives away the one
that it stood for. -/
def keepHandle (s : State) (name : String) (e : Key Endpoint) : State :=
  let replaced := (s.directory.handles.find? name).map (·.endpoint)
  { s with
    directory := { s.directory with handles := s.directory.handles.insert name ⟨s.serial, e⟩ }
    inFlight := replaced.toList ++ s.inFlight.erase e
    serial := s.serial + 1 }

/-- A name gives away the reference that it stands for. -/
def takeHandle (s : State) (name : String) : State :=
  let taken := (s.directory.handles.find? name).map (·.endpoint)
  { s with
    directory := { s.directory with handles := s.directory.handles.erase name }
    inFlight := taken.toList ++ s.inFlight }

end State
end UsbTransfer
