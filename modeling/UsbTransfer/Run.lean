import UsbTransfer.History

/-!
# Runs

An operation transforms a world, which is a state and its history, and either returns a value or
ends in a fault.  A fault keeps what was done before it.  Operations that own something clean up
on both ways out: `ensuring` runs its second part after the first however that ended.
-/

namespace UsbTransfer

/-- A state and how it came about. -/
structure World where
  state : State
  /-- The moments so far, the latest first. -/
  history : List Moment

/-- The world in which nothing has happened. -/
def World.empty : World := ⟨.empty, []⟩

/-- Operations on worlds that may end in a fault. -/
abbrev Run := EStateM Fault World

namespace Run

/-- The present state. -/
def getState : Run State := do
  return (← get).state

/-- Changes the state. -/
def modifyState (f : State → State) : Run Unit :=
  modify fun w => { w with state := f w.state }

/-- Records an occurrence with the present state. -/
def record (o : Occurrence) : Run Unit :=
  modify fun w => { w with history := ⟨o, w.state⟩ :: w.history }

/-- Turns a fault into a value. -/
def attempt {α : Type} (m : Run α) : Run (Except Fault α) := fun w =>
  match m w with
  | .ok a w' => .ok (.ok a) w'
  | .error fault w' => .ok (.error fault) w'

/-- Runs the second part after the first one however that ended.  Of two faults the first one is
kept. -/
def ensuring {α : Type} (m : Run α) (after : Run Unit) : Run α := do
  match ← attempt m with
  | .ok a => do
      after
      return a
  | .error fault => do
      let _ ← attempt after
      throw fault

/-- Runs the second part only after a fault in the first one. -/
def onFault {α : Type} (m : Run α) (after : Run Unit) : Run α := do
  match ← attempt m with
  | .ok a => return a
  | .error fault => do
      let _ ← attempt after
      throw fault

/-- Does something while a lock is held; a fault poisons the lock. -/
def guarding {α : Type} (lock : State → Lock) (set : Lock → State → State) (m : Run α) :
    Run α := do
  match lock (← getState) with
  | .held => throw .lockHeld
  | .poisoned => throw .lockPoisoned
  | .free => do
      modifyState (set .held)
      match ← attempt m with
      | .ok a => do
          modifyState (set .free)
          return a
      | .error fault => do
          modifyState (set .poisoned)
          throw fault

end Run

end UsbTransfer
