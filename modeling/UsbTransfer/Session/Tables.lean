import UsbTransfer.Session.Endpoints

/-!
# Commands on tables

What is told of an endpoint is taken while its handle is still held.  A handle that is found or
removed is kept under a name or released at once.
-/

namespace UsbTransfer
namespace Session

open Run

/-- Adds a table. -/
def addTable (play : Player) (name : String) : Run Result := do
  let t ← Table.create
  keepTable play name t
  return .ok .done

/-- Does something with a named table. -/
def withTable (name : String) (act : Key Table → Run Result) : Run Result := do
  match (← getState).directory.tables.find? name with
  | none => refuse (.unknown .table name)
  | some t => act t

/-- Gives up a table. -/
def dropTable (play : Player) (name : String) : Run Result :=
  withTable name fun t => do
    modifyDirectory fun d => { d with tables := d.tables.erase name }
    Table.destroy play t
    return .ok .done

/-- Installs an endpoint; the handle is used up also when that fails. -/
def register (play : Player) (table name : String) : Run Result :=
  withTable table fun t => do
    match ← takeHandle name with
    | .error mistake => refuse mistake
    | .ok e =>
        match ← Table.register play t e with
        | .ok () => return .ok .done
        | .error error => return .error (.failed error)

/-- Finds an installed endpoint. -/
def find (play : Player) (table : String) (target : Target) (keep : Option String) : Run Result :=
  withTable table fun t => do
    match ← Table.find? t target with
    | none => return .ok .nothing
    | some e => do
        let view := (← getState).handleView e
        keepOrRelease play keep e
        return .ok (.handle view)

/-- Uninstalls an endpoint. -/
def remove (play : Player) (table : String) (target : Target) (keep : Option String) :
    Run Result :=
  withTable table fun t => do
    match ← Table.remove t target with
    | .error error => return .error (.failed error)
    | .ok e => do
        let view := (← getState).handleView e
        keepOrRelease play keep e
        return .ok (.handle view)

/-- Uninstalls the endpoints of a device. -/
def removeDevice (play : Player) (table : String) (address : UInt8) (keep : Option String) :
    Run Result :=
  withTable table fun t => do
    let es ← Table.removeDevice t address
    let s ← getState
    match keep with
    | some stem => keepHandles play stem 0 es
    | none => Endpoint.releaseAll play es
    return .ok (.handles (es.map s.handleView))

/-- Has a table reset toggles. -/
def resetTable (table : String) (target : Target) (scope : ResetScope) : Run Result :=
  withTable table fun t => do
    return .ok (.count (← Table.resetToggles t target scope))

/-- Tells how many endpoints are installed. -/
def tableSize (table : String) : Run Result :=
  withTable table fun t => do
    return .ok (.size (← Table.size t))

end Session
end UsbTransfer
