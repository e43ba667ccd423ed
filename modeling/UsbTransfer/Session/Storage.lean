import UsbTransfer.Creation

/-!
# Named objects

Objects are put under names and taken from them.  What is put under a name in use takes its place
first, and then what was there goes away.  A handle that an operation in progress uses can be
neither moved nor released; when its name is given to another one it stays in flight, and goes
away with the last use.
-/

namespace UsbTransfer

open Run

namespace Directory

/-- Whether an operation in progress uses a handle. -/
def OnLoan (d : Directory) (h : Handle) : Prop :=
  h ∈ d.loans

instance (d : Directory) (h : Handle) : Decidable (d.OnLoan h) :=
  inferInstanceAs (Decidable (_ ∈ _))

end Directory

namespace Session

/-- Changes the names. -/
def modifyDirectory (f : Directory → Directory) : Run Unit :=
  modifyState fun s => { s with directory := f s.directory }

/-- The endpoint that a handle refers to. -/
def endpointNamed (name : String) : Run (Except Mistake (Key Endpoint)) := do
  match (← getState).directory.handles.find? name with
  | none => return .error (.unknown .endpoint name)
  | some h => return .ok h.endpoint

/-- Moves the reference of a named handle into flight. -/
def takeHandle (name : String) : Run (Except Mistake (Key Endpoint)) := do
  let d := (← getState).directory
  match d.handles.find? name with
  | none => return .error (.unknown .endpoint name)
  | some h =>
      if d.OnLoan h then
        return .error (.inUse name)
      else do
        modifyState (·.takeHandle name)
        return .ok h.endpoint

/-- Moves the references of named handles into flight, in order, after those taken already.  When
one of them cannot be moved, those before it are released. -/
def takeHandles (play : Player) (taken : List (Key Endpoint)) :
    List String → Run (Except Mistake (List (Key Endpoint)))
  | [] => return .ok taken
  | name :: rest => do
      match ← takeHandle name with
      | .error mistake => do
          Endpoint.releaseAll play taken
          return .error mistake
      | .ok e => takeHandles play (taken ++ [e]) rest

/-- Puts a reference in flight under a name. -/
def keepHandle (play : Player) (name : String) (e : Key Endpoint) : Run Unit := do
  let d := (← getState).directory
  modifyState (·.keepHandle name e)
  match d.handles.find? name with
  | none => pure ()
  | some replaced =>
      if d.OnLoan replaced then pure ()
      else Endpoint.release play replaced.endpoint

/-- Puts references in flight under numbered names.  After a fault the others are released. -/
def keepHandles (play : Player) (stem : String) : Nat → List (Key Endpoint) → Run Unit
  | _, [] => pure ()
  | i, e :: rest => do
      onFault (keepHandle play (stem ++ toString i) e) (Endpoint.releaseAll play rest)
      keepHandles play stem (i + 1) rest

/-- Keeps a reference in flight under a name, or releases it when there is no name for it. -/
def keepOrRelease (play : Player) (keep : Option String) (e : Key Endpoint) : Run Unit :=
  match keep with
  | some name => keepHandle play name e
  | none => Endpoint.release play e

/-- Uses a named handle.  The use comes to an end however the operation does; a handle that lost
its name meanwhile goes away with its last use. -/
def lending {α : Type} (play : Player) (h : Handle) (m : Run α) : Run α := do
  modifyDirectory fun d => { d with loans := h :: d.loans }
  ensuring m do
    modifyDirectory fun d => { d with loans := d.loans.erase h }
    let d := (← getState).directory
    if d.OnLoan h ∨ h ∈ d.handles.values then pure ()
    else Endpoint.release play h.endpoint

/-- Puts a batch under a name. -/
def keepBatch (play : Player) (name : String) (b : Key Batch) : Run Unit := do
  let replaced? := (← getState).directory.batches.find? name
  modifyDirectory fun d => { d with batches := d.batches.insert name b }
  match replaced? with
  | none => pure ()
  | some replaced => Batch.drop play replaced

/-- Puts a table under a name. -/
def keepTable (play : Player) (name : String) (t : Key Table) : Run Unit := do
  let replaced? := (← getState).directory.tables.find? name
  modifyDirectory fun d => { d with tables := d.tables.insert name t }
  match replaced? with
  | none => pure ()
  | some replaced => Table.destroy play replaced

/-- Takes a batch from its name. -/
def takeBatch (name : String) : Run (Except Mistake (Key Batch)) := do
  match (← getState).directory.batches.find? name with
  | none => return .error (.unknown .batch name)
  | some b => do
      modifyDirectory fun d => { d with batches := d.batches.erase name }
      return .ok b

/-- The name that stands for the batch at hand in the scripts of some hooks. -/
def atHandName : String := "$"

/-- Operates on a batch by its name.  Meanwhile the name is absent, and the batch is put back
under it however the operation ends.  The batch at hand has no name to be absent. -/
def onBatch (play : Player) (atHand : Option (Key Batch)) (name : String)
    (act : Key Batch → Run Result) : Run Result := do
  match if name = atHandName then atHand else none with
  | some b => act b
  | none =>
      match ← takeBatch name with
      | .error mistake => return .error (.mistaken mistake)
      | .ok b => ensuring (act b) (keepBatch play name b)

end Session

end UsbTransfer
