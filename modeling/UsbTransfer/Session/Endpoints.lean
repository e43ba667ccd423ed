import UsbTransfer.Session.Storage

/-!
# Commands on buses and endpoints

What is told of an object is taken before the object is put under its name.
-/

namespace UsbTransfer
namespace Session

open Run

/-- Refuses a command. -/
def refuse (mistake : Mistake) : Run Result :=
  return .error (.mistaken mistake)

/-- Adds a bus and tells its label.  Endpoints keep their bus when its name is given to another. -/
def addBus (name : String) (plan : BusPlan Script) : Run Result := do
  let bus := (← getState).buses.nextKey
  modifyState fun s =>
    { s with
      buses := s.buses.push ⟨name, plan⟩
      directory := { s.directory with buses := s.directory.buses.insert name bus } }
  return .ok (.text plan.label)

/-- Asks a bus directly to reset toggles. -/
def resetOnBus (play : Player) (name : String) (target : Target) (scope : ResetScope) :
    Run Result := do
  match (← getState).directory.buses.find? name with
  | none => refuse (.unknown .bus name)
  | some bus =>
      match ← Bus.resetToggles play bus none target scope with
      | none => return .ok .nothing
      | some (.ok ()) => return .ok .done
      | some (.error error) => return .error (.failed error)

/-- Adds an endpoint to a bus. -/
def addEndpoint (play : Player) (busName : String) (descriptor : Descriptor) (name : String) :
    Run Result := do
  match (← getState).directory.buses.find? busName with
  | none => refuse (.unknown .bus busName)
  | some bus => do
      let e ← Endpoint.create bus descriptor
      let view := (← getState).endpointView e
      keepHandle play name e
      return .ok (.endpoint view)

/-- Does something with the endpoint of a named handle. -/
def withEndpoint (name : String) (act : Key Endpoint → Run Result) : Run Result := do
  match ← endpointNamed name with
  | .error mistake => refuse mistake
  | .ok e => act e

/-- Takes one more reference and tells how many there are. -/
def addReference (play : Player) (name copy : String) : Run Result :=
  withEndpoint name fun e => do
    Endpoint.acquire e
    let count := ((← getState).endpoints.get e).references
    keepHandle play copy e
    return .ok (.count count)

/-- Releases a named handle. -/
def releaseHandle (play : Player) (name : String) : Run Result := do
  match ← takeHandle name with
  | .error mistake => refuse mistake
  | .ok e => do
      Endpoint.release play e
      return .ok .done

/-- Tells whether two handles refer to the same endpoint. -/
def sameEndpoint (a b : String) : Run Result :=
  withEndpoint a fun e => withEndpoint b fun e' =>
    return .ok (.flag (e = e'))

/-- Tells all about an endpoint. -/
def endpointInfo (name : String) : Run Result :=
  withEndpoint name fun e => do
    return .ok (.endpoint ((← getState).endpointView e))

/-- Shows an endpoint. -/
def endpointText (name : String) (style : Style) : Run Result :=
  withEndpoint name fun e => do
    let endpoint := (← getState).endpoints.get e
    match style with
    | .line => return .ok (.text endpoint.target.text)
    | .compact => return .ok (.text endpoint.figure.compact)
    | .pretty => return .ok (.text endpoint.figure.pretty)

/-- Tells how many references there are on an endpoint. -/
def referenceCount (name : String) : Run Result :=
  withEndpoint name fun e => do
    return .ok (.count ((← getState).endpoints.get e).references)

/-- Tells the toggle of an endpoint. -/
def toggle (name : String) : Run Result :=
  withEndpoint name fun e => do
    return .ok (.flag ((← getState).endpoints.get e).toggle)

/-- Sets the toggle of an endpoint. -/
def setToggle (name : String) (value : Bool) : Run Result :=
  withEndpoint name fun e => do
    Endpoint.setToggle e value
    return .ok .done

/-- Flips the toggle of an endpoint. -/
def advanceToggle (name : String) : Run Result :=
  withEndpoint name fun e => do
    return .ok (.flag (← Endpoint.advanceToggle e))

end Session
end UsbTransfer
