import UsbTransfer.Proofs.Likeness.Sessions

/-!
# Calls that fail

Some calls fail and leave everything as it was: the buffer that cannot be had, the misuse of a
batch, the value of another type, the target at which nothing is installed.  A refused registration
uses up its handle, and leaves what the release of that handle leaves.  Such calls can be omitted,
whether they are made from outside or in a script, and nothing else tells the difference.

Here a call is a command with what came of it.  The second of two courses goes without the failed
calls of the first; their worlds are in the same state, and what is recorded in the second one is
recorded in the first one too, at the same moments.
-/

namespace UsbTransfer

open Run Session

/-! ## Calls -/

/-- The batch that a command means was released. -/
def State.isReleased (s : State) (atHand : Option (Key Batch)) (name : String) : Bool :=
  (meant? s atHand name).any fun b => (s.batches.get b).endpoint.isNone

namespace Command

/-- A command that comes to the result fails in one of the ways that leave everything as it was.
Only a released batch is misused by a reset of its toggles. -/
def failsWith (atHand : Option (Key Batch)) (s : State) : Command → Result → Bool
  | .allocBuffer _ _ _, .error (.failed error) => error.kind = .outOfMemory
  | .setSetup _ _, .error (.faulted _) => true
  | .schedule _, .error (.faulted _) => true
  | .resetToggle batch, .error (.faulted _) => s.isReleased atHand batch
  | .takeData _ _ _, .ok .nothing => true
  | .find _ _ _, .ok .nothing => true
  | .remove _ _ _, .error (.failed error) => error.kind = .notFound
  | .register _ _, .error (.failed error) => error.kind = .busy
  | _, _ => false

/-- What the library puts on record when the command fails without any other effect. -/
def mark? (atHand : Option (Key Batch)) (s : State) : Command → Option Occurrence
  | .allocBuffer batch length _ => (meant? s atHand batch).map (.bufferRefused · length)
  | .resetToggle batch => (meant? s atHand batch).map .togglesResetting
  | _ => none

end Command

/-- A command that was carried out: the states before and after it, and its result. -/
structure Errand where
  atHand : Option (Key Batch)
  before : State
  command : Command
  result : Result
  after : State

namespace Session

/-- Carries out a command, with a batch at hand or without one. -/
def conduct (play : Player) (atHand : Option (Key Batch)) (command : Command) (w : World) :
    Result × World :=
  match settle (carryOut play atHand command) w with
  | .ok result w' => (result, w')
  | .error fault w' => (.error (.faulted fault), w')

end Session

namespace Errand

/-- The call that a command comes to in a world. -/
def of (play : Player) (atHand : Option (Key Batch)) (command : Command) (w : World) : Errand where
  atHand := atHand
  before := w.state
  command := command
  result := (conduct play atHand command w).1
  after := (conduct play atHand command w).2.state

/-- The call failed in one of the ways that leave everything as it was. -/
def failed (c : Errand) : Bool :=
  c.command.failsWith c.atHand c.before c.result

/-- What is left of a call when failed calls are omitted.  The handle that was not installed is
released all the same. -/
def remnant (c : Errand) : List Errand :=
  if c.failed then
    match c.command with
    | .register _ handle => [{ c with command := .releaseHandle handle, result := .ok .done }]
    | _ => []
  else [c]

end Errand

namespace Session

/-- The calls that commands from outside come to, one after the other. -/
def calls (play : Player) : List Command → World → List Errand
  | [], _ => []
  | command :: rest, w => .of play none command w :: calls play rest (step play command w).2

/-- The world after commands from outside. -/
def onward (play : Player) (commands : List Command) (w : World) : World :=
  commands.foldl (fun w command => (step play command w).2) w

/-- The calls that are left of those that commands come to. -/
def leftover (play : Player) (commands : List Command) (w : World) : List Errand :=
  (calls play commands w).flatMap Errand.remnant

/-- Carries out one command of a script, unless it would fail. -/
def frugalCommand (play : Player) (atHand : Option (Key Batch)) (command : Command) : Run Unit :=
  fun w =>
    ((Errand.of play atHand command w).remnant.map (·.command)).forM (playCommand play atHand) w

/-- The player that omits the calls that would fail, in whatever script they stand. -/
def frugalPlayer : Nat → Player
  | 0 => fun _ _ => record .tooDeep
  | limit + 1 => fun atHand script => script.forM (frugalCommand (frugalPlayer limit) atHand)

end Session

/-! ## Worlds without failed calls -/

/-- A call of the command failed with the result and left the state. -/
def Command.Fails (command : Command) (result : Result) (s : State) : Prop :=
  ∃ play atHand w, (Errand.of play atHand command w).failed = true ∧
    (Errand.of play atHand command w).result = result ∧ (Errand.of play atHand command w).after = s

/-- What a failed call leaves on record: that something was refused, or that the call in a script
came to its end. -/
def Moment.OfFailure (m : Moment) : Prop :=
  match m.occurrence with
  | .bufferRefused _ _ | .registrationRefused _ _ => True
  | .togglesResetting b => (m.state.batches.get b).endpoint = none
  | .stepEnded result => ∃ command : Command, command.Fails result m.state
  | _ => False

/-- The second history is the first one without what failed calls left there. -/
inductive Abridged : List Moment → List Moment → Prop where
  | nil : Abridged [] []
  | kept {history history' : List Moment} (m : Moment) (h : Abridged history history') :
      Abridged (m :: history) (m :: history')
  | omitted {history history' : List Moment} {m : Moment} (hm : m.OfFailure)
      (h : Abridged history history') :
      Abridged (m :: history) history'
  /-- A registration was refused, and a release takes its place. -/
  | replaced {history history' : List Moment} {table handle : String} {result : Result} {s : State}
      (hrefused : (Command.register table handle).Fails result s) (h : Abridged history history') :
      Abridged (⟨.stepEnded result, s⟩ :: history) (⟨.stepEnded (.ok .done), s⟩ :: history')

theorem Abridged.refl (history : List Moment) : Abridged history history := by
  induction history with
  | nil => exact .nil
  | cons m _ ih => exact .kept m ih

/-- The second world is the first one without failed calls. -/
structure World.Abridged (w w' : World) : Prop where
  state : w'.state = w.state
  history : UsbTransfer.Abridged w.history w'.history

theorem World.Abridged.refl (w : World) : w.Abridged w :=
  ⟨rfl, .refl w.history⟩

/-- Two worlds in which operations go the same way, since all names are in order. -/
structure World.Mirrors (w w' : World) : Prop extends w.Abridged w' where
  ordered : w.state.Ordered

namespace World.Mirrors

variable {w w' : World}

theorem alter (h : w.Mirrors w') {f : State → State} (hf : ∀ s, s.Ordered → (f s).Ordered) :
    (w.alter f).Mirrors (w'.alter f) where
  state := congrArg f h.state
  history := h.history
  ordered := hf _ h.ordered

theorem note (h : w.Mirrors w') (o : Occurrence) : (w.note o).Mirrors (w'.note o) where
  state := h.state
  history := by
    rw [World.note_history, World.note_history, h.state]
    exact .kept _ h.history
  ordered := h.ordered

end World.Mirrors

/-- What is compared when failed calls are omitted: nothing may differ but what is on record. -/
def Comparison.omissions : Comparison where
  strict := True
  worlds := World.Mirrors
  state := fun h => ⟨h.state ▸ .refl _, fun _ => h.state, fun _ => h.ordered⟩
  alter := fun h hf => by
    rw [hf.same trivial]
    exact h.alter (hf.ordered trivial)
  note := fun h ho => by
    rw [ho.same trivial]
    exact h.note _
  remark := fun hstrict _ _ => absurd trivial hstrict

/-- What the second player plays mirrors what the first one plays. -/
abbrev Player.Mirrors (play play' : Player) : Prop :=
  Comparison.omissions.Matches play play'

end UsbTransfer
