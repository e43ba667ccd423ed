import UsbTransfer.Session.Endpoints

/-!
# Commands on queues and wakers

A queue may have several names.  A waker that was left in a queue stays as it was when its name is
given to another one.
-/

namespace UsbTransfer
namespace Session

open Run

/-- Puts a queue under a name. -/
def keepQueue (name : String) (q : Key Queue) : Run Unit :=
  modifyDirectory fun d => { d with queues := d.queues.insert name q }

/-- Adds a queue. -/
def addQueue (name : String) : Run Result := do
  keepQueue name (← Queue.create)
  return .ok .done

/-- Does something with a named queue. -/
def withQueue (name : String) (act : Key Queue → Run Result) : Run Result := do
  match (← getState).directory.queues.find? name with
  | none => refuse (.unknown .queue name)
  | some q => act q

/-- Gives one more name to a queue. -/
def shareQueue (queue name : String) : Run Result :=
  withQueue queue fun q => do
    keepQueue name q
    return .ok .done

/-- Gives up a name of a queue. -/
def dropQueue (queue : String) : Run Result :=
  withQueue queue fun _ => do
    modifyDirectory fun d => { d with queues := d.queues.erase queue }
    return .ok .done

/-- Pushes a completion. -/
def push (play : Player) (queue : String) (c : Completion) : Run Result :=
  withQueue queue fun q => do
    Queue.push play q c
    return .ok .done

/-- Takes the next completion. -/
def tryNext (queue : String) : Run Result :=
  withQueue queue fun q => do
    match ← Queue.next? q with
    | none => return .ok .nothing
    | some c => return .ok (.completion c)

/-- Takes the next completion and shows it. -/
def nextText (queue : String) (style : Style) : Run Result :=
  withQueue queue fun q => do
    match ← Queue.next? q with
    | none => return .ok .nothing
    | some c =>
        match style with
        | .line => return .ok (.text c.target.text)
        | .compact => return .ok (.text c.figure.compact)
        | .pretty => return .ok (.text c.figure.pretty)

/-- Tells how many completions are in a queue. -/
def queueSize (queue : String) : Run Result :=
  withQueue queue fun q => do
    return .ok (.size (← Queue.size q))

/-- Adds a waker. -/
def addWaker (name : String) (code : Option Script) : Run Result := do
  modifyDirectory fun d => { d with wakers := d.wakers.insert name ⟨name, code⟩ }
  return .ok .done

/-- Waits for the next completion in one of the ways there are, once. -/
def pollOnce (q : Key Queue) (route : PollRoute) (waker : Waker) (meanwhile : Run Unit) :
    Run Result := do
  match route with
  | .direct | .future =>
      match ← Queue.poll q waker meanwhile with
      | .ready c => return .ok (.completion c)
      | .pending => return .ok .pending
  | .stream =>
      match ← Queue.pollStream q waker meanwhile with
      | .ready (some c) => return .ok (.completion c)
      | .ready none => return .ok .nothing
      | .pending => return .ok .pending

/-- Waits for the next completion with a named waker. -/
def poll (queue : String) (route : PollRoute) (waker : String) : Run Result :=
  withQueue queue fun q => do
    match (← getState).directory.wakers.find? waker with
    | none => refuse (.unknown .waker waker)
    | some w => pollOnce q route w (pure ())

/-- The waker of those who wait while another context pushes a completion. -/
def racingWaker : Waker := ⟨"race", none⟩

/-- Waits for the next completion while another context pushes one. -/
def pollRacing (play : Player) (queue : String) (route : PollRoute) (pushed : Completion) :
    Run Result :=
  withQueue queue fun q =>
    pollOnce q route racingWaker (Queue.push play q pushed)

end Session
end UsbTransfer
