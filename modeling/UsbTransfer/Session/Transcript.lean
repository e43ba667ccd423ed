import UsbTransfer.Session.CarryOut
import UsbTransfer.Session.Report

/-!
# Transcripts

A session starts without objects, carries out commands one after the other, and in the end
releases all that has a name.  Its transcript tells for each command the result, what was seen
meanwhile and how the named objects stand after it, and what was seen in the end.
-/

namespace UsbTransfer
namespace Session

open Run

/-- The number of scripts that may run inside each other. -/
def scriptLimit : Nat := 12

/-- The number of objects of a kind that are released in the end, at most.  Releasing an object
may bring others into being, but no session comes near to this limit. -/
def releaseLimit : Nat := 1000000

/-- How the named objects stand. -/
structure Overview where
  endpoints : List (String × Nat × Bool)
  batches : List (String × String)
  tables : List (String × Nat)
  queues : List (String × Nat)
deriving DecidableEq, Repr

/-- How the named objects of a state stand. -/
def overview (s : State) : Overview where
  endpoints := s.directory.handles.entries.map fun (name, h) =>
    let endpoint := s.endpoints.get h.endpoint
    (name, endpoint.references, endpoint.toggle)
  batches := s.directory.batches.entries.map fun (name, b) => (name, (s.transferOf b).summary.text)
  tables := s.directory.tables.entries.map fun (name, t) => (name, (s.tables.get t).slots.size)
  queues := s.directory.queues.entries.map fun (name, q) =>
    (name, (s.queues.get q).pending.length)

/-- What a transcript tells of one command. -/
structure StepRecord where
  result : Result
  reports : List Report
  overview : Overview
deriving DecidableEq, Repr

/-- What a session was like. -/
structure Transcript where
  steps : List StepRecord
  ending : List Report
deriving DecidableEq, Repr

/-- What was seen since an earlier world. -/
def reportsSince (verbosity : Verbosity) (before after : World) : List Report :=
  let moments := after.history.take (after.history.length - before.history.length)
  moments.reverse.filterMap (Moment.report? verbosity)

/-- Carries out a command from outside. -/
def step (play : Player) (command : Command) (w : World) : Result × World :=
  match settle (carryOut play none command) w with
  | .ok result w' => (result, w')
  | .error fault w' => (.error (.faulted fault), w')

/-- Carries out commands from outside, one after the other. -/
def steps (play : Player) (verbosity : Verbosity) :
    List Command → World → List StepRecord × World
  | [], w => ([], w)
  | command :: rest, w =>
      let (result, w') := step play command w
      let (records, last) := steps play verbosity rest w'
      (⟨result, reportsSince verbosity w w', overview w'.state⟩ :: records, last)

/-- Does something in the end; a fault is recorded and goes no further. -/
def contain (m : Run Unit) : Run Unit := do
  match ← attempt m with
  | .ok () => pure ()
  | .error fault => record (.faultAtEnd fault)

/-- Takes the first name again and again, and releases what it stands for. -/
def releaseEach (first? : Directory → Option String) (releaseNamed : String → Run Unit) :
    Nat → Run Unit
  | 0 => pure ()
  | limit + 1 => do
      match first? (← getState).directory with
      | none => pure ()
      | some name => do
          contain (releaseNamed name)
          releaseEach first? releaseNamed limit

/-- Takes a handle from its name and releases it. -/
def forgetHandle (play : Player) (name : String) : Run Unit := do
  match ← takeHandle name with
  | .error _ => pure ()
  | .ok e => Endpoint.release play e

/-- Takes a batch from its name and drops it. -/
def forgetBatch (play : Player) (name : String) : Run Unit := do
  match ← takeBatch name with
  | .error _ => pure ()
  | .ok b => Batch.drop play b

/-- Takes a table from its name and gives it up. -/
def forgetTable (play : Player) (name : String) : Run Unit := do
  match (← getState).directory.tables.find? name with
  | none => pure ()
  | some t => do
      modifyDirectory fun d => { d with tables := d.tables.erase name }
      Table.destroy play t

/-- Takes a queue from its name. -/
def forgetQueue (name : String) : Run Unit :=
  modifyDirectory fun d => { d with queues := d.queues.erase name }

/-- Releases all that has a name: batches first, then handles, tables and queues. -/
def close (play : Player) : Run Unit := do
  releaseEach (·.batches.first?) (forgetBatch play) releaseLimit
  releaseEach (·.handles.first?) (forgetHandle play) releaseLimit
  releaseEach (·.tables.first?) (forgetTable play) releaseLimit
  releaseEach (·.queues.first?) forgetQueue releaseLimit

/-- The transcript of a session. -/
def transcript (verbosity : Verbosity) (commands : List Command) : Transcript :=
  let play := player scriptLimit
  let (records, w) := steps play verbosity commands .empty
  match close play w with
  | .ok () w' | .error _ w' => ⟨records, reportsSince verbosity w w'⟩

end Session
end UsbTransfer
