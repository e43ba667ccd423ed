import UsbTransfer.Ownership

/-!
# Installation of endpoints

A table owns a reference on every endpoint that is installed in it, and gives that reference back
when the endpoint is uninstalled.  Tables are locked while they are looked at or changed, and
never while user code runs: a reference that is refused is released after the lock.
-/

namespace UsbTransfer
namespace Table

open Run

/-- Adds a table without endpoints. -/
def create : Run (Key Table) := do
  let t := (← getState).tables.nextKey
  modifyState fun s => { s with tables := s.tables.push default }
  return t

/-- Does something while a table is locked. -/
def locking {α : Type} (t : Key Table) (m : Run α) : Run α :=
  guarding (fun s => (s.tables.get t).lock)
    (fun lock s => { s with tables := s.tables.modify t fun table => { table with lock := lock } })
    m

/-- Puts a reference in flight that a slot of a table owns. -/
def vacate (t : Key Table) (slot : Nat) : Run (Key Endpoint) := do
  match (← getState).uninstall? t slot with
  | none => throw .slotVacant
  | some (e, s) => do
      modifyState fun _ => s
      return e

/-- Installs an endpoint, which takes the reference in flight.  When an installed endpoint
matches its target, the reference is released instead. -/
def register (play : Player) (t : Key Table) (e : Key Endpoint) : Run (Except UsbError Unit) := do
  let installed ← locking t do
    let s ← getState
    match (s.tables.get t).lookup? s.targetOf (s.targetOf e) with
    | some _ => do
        record (.registrationRefused t e)
        return false
    | none => do
        record (.registered t e)
        modifyState (·.install t e)
        return true
  if installed then
    return .ok ()
  else
    Endpoint.release play e
    return .error .alreadyRegistered

/-- Takes a reference on the first installed endpoint that matches a target. -/
def find? (t : Key Table) (target : Target) : Run (Option (Key Endpoint)) :=
  locking t do
    let s ← getState
    match (s.tables.get t).lookup? s.targetOf target with
    | none => return none
    | some (_, e) => do
        Endpoint.acquire e
        return some e

/-- Uninstalls the first endpoint that matches a target; its reference is in flight then. -/
def remove (t : Key Table) (target : Target) : Run (Except UsbError (Key Endpoint)) :=
  locking t do
    let s ← getState
    match (s.tables.get t).lookup? s.targetOf target with
    | none => return .error .notRegistered
    | some (slot, e) => do
        record (.unregistered t target e)
        return .ok (← vacate t slot)

/-- Uninstalls the endpoints of a device, in the order of their slots. -/
def removeDevice (t : Key Table) (address : UInt8) : Run (List (Key Endpoint)) :=
  locking t do
    let s ← getState
    let slots := (s.tables.get t).deviceSlots s.targetOf address
    record (.deviceUnregistered t address slots.length)
    slots.mapM (vacate t)

/-- Sets the toggles of the endpoints that a reset reaches to DATA0 and tells how many they are. -/
def resetToggles (t : Key Table) (target : Target) (scope : ResetScope) : Run Nat :=
  locking t do
    let s ← getState
    let reached := (s.tables.get t).reached s.targetOf target scope
    reached.forM fun e => Endpoint.setToggle e false
    record (.tableReset t reached)
    return reached.length

/-- The number of installed endpoints. -/
def size (t : Key Table) : Run Nat :=
  locking t do
    return ((← getState).tables.get t).slots.size

/-- Gives up a table; its references are released in the order of its slots. -/
def destroy (play : Player) (t : Key Table) : Run Unit := do
  let owned := ((← getState).tables.get t).slots.values
  record (.tableGivenUp t)
  modifyState (·.clearTable t)
  Endpoint.releaseAll play owned

end Table
end UsbTransfer
