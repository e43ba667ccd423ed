import UsbTransfer.Ownership

/-!
# Delivery of completions

Completions leave a queue in the order in which they came.  Who finds a queue empty may leave a
waker there; the next completion that arrives takes it out and wakes it, when the completion is in
place and the queue is unlocked, so that the code of a waker may use the queue.  A queue has room
for one waker, and the last one left there counts.
-/

namespace UsbTransfer

/-- The answer of one attempt to get something. -/
inductive Poll (α : Type) where
  | ready (value : α)
  | pending
deriving DecidableEq, Repr

/-- Changes what is ready. -/
def Poll.map {α β : Type} (f : α → β) : Poll α → Poll β
  | .ready a => .ready (f a)
  | .pending => .pending

namespace Queue

open Run

/-- Adds a queue without completions. -/
def create : Run (Key Queue) := do
  let q := (← getState).queues.nextKey
  modifyState fun s => { s with queues := s.queues.push default }
  return q

/-- Changes a queue. -/
def modify (q : Key Queue) (f : Queue → Queue) : Run Unit :=
  modifyState fun s => { s with queues := s.queues.modify q f }

/-- Does something while a queue is locked. -/
def locking {α : Type} (q : Key Queue) (m : Run α) : Run α :=
  guarding (fun s => (s.queues.get q).lock)
    (fun lock s => { s with queues := s.queues.modify q fun queue => { queue with lock := lock } })
    m

/-- Takes out the waker and wakes it. -/
def wake (play : Player) (q : Key Queue) : Run Unit := do
  match ((← getState).queues.get q).waker with
  | none => pure ()
  | some waker => do
      modify q fun queue => { queue with waker := none }
      record (.woken q waker.name)
      play.run none waker.code

/-- Appends a completion, and then wakes who waits for it. -/
def push (play : Player) (q : Key Queue) (c : Completion) : Run Unit := do
  locking q do
    modify q fun queue => { queue with pending := queue.pending ++ [c] }
    record (.pushed q c)
  wake play q

/-- Takes the oldest completion. -/
def next? (q : Key Queue) : Run (Option Completion) :=
  locking q do
    match ((← getState).queues.get q).pending with
    | [] => return none
    | c :: rest => do
        modify q fun queue => { queue with pending := rest }
        record (.handedOut q c)
        return some c

/-- Leaves a waker in the place of the one that is there. -/
def leave (q : Key Queue) (waker : Waker) : Run Unit :=
  modify q fun queue => { queue with waker := some waker }

/-- Takes the oldest completion, or leaves a waker.  Something may happen in other contexts while
the waker is left, and so the queue is looked at once more after that. -/
def poll (q : Key Queue) (waker : Waker) (meanwhile : Run Unit) : Run (Poll Completion) := do
  match ← next? q with
  | some c => return .ready c
  | none => do
      leave q waker
      meanwhile
      match ← next? q with
      | some c => return .ready c
      | none => do
          record (.waiting q waker.name)
          return .pending

/-- The queue as a stream: each attempt yields an item, and the stream has no end. -/
def pollStream (q : Key Queue) (waker : Waker) (meanwhile : Run Unit) :
    Run (Poll (Option Completion)) := do
  return (← poll q waker meanwhile).map some

/-- The number of completions in a queue. -/
def size (q : Key Queue) : Run Nat :=
  locking q do
    return ((← getState).queues.get q).pending.length

end Queue
end UsbTransfer
