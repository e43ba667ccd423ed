import UsbTransfer.Delivery

/-!
# What a batch owns

A batch has room for one handler and for one attached value.  Either may own references on
endpoints, which are released when the handler or the value is destroyed.  A handler that is
invoked is used up by that: it is destroyed when it has done its work, also when that ended in a
fault.
-/

namespace UsbTransfer

open Run

namespace Handler

/-- Destroys a handler that left its batch; its references are in flight.  They are released in
order, and a noisy handler tells its name after that. -/
def destroy (play : Player) (b : Key Batch) (h : Handler) : Run Unit :=
  ensuring (Endpoint.releaseAll play h.captured)
    (record (.handlerDestroyed b h.serial (if h.noisy then h.name? else none)))

/-- Hands a completion to a handler, which is used up by that, and tells what it answers. -/
def invoke (play : Player) (b : Key Batch) (h : Handler) (c : Completion) :
    Run (Option UsbError) := do
  record (.handlerInvoked b h.serial h.name? c)
  ensuring
    (match h.action with
      | .run _ code reply => do
          play.run none code
          return reply
      | .forward q => do
          Queue.push play q c
          return none)
    (h.destroy play b)

end Handler

namespace Attachment

/-- Destroys a value that left its batch; its references are in flight. -/
def destroy (play : Player) (b : Key Batch) (a : Attachment) : Run Unit :=
  ensuring (Endpoint.releaseAll play a.value.captured)
    (record (.dataDestroyed b a.serial a.value.lastWords?))

end Attachment

namespace Batch

/-- Changes a batch. -/
def modify (b : Key Batch) (f : Batch → Batch) : Run Unit :=
  modifyState fun s => { s with batches := s.batches.modify b f }

/-- Changes the plain data of a batch. -/
def modifyTransfer (b : Key Batch) (f : Transfer → Transfer) : Run Unit :=
  modify b fun batch => { batch with transfer := f batch.transfer }

/-- Takes the handler out of a batch; its references are in flight then. -/
def takeHandler? (b : Key Batch) : Run (Option Handler) := do
  match ((← getState).batches.get b).handler with
  | none => return none
  | some h => do
      modifyState (·.detachHandler b)
      return some h

/-- Gives a handler to a batch, which takes the handler's references in flight.  The handler that
was there is destroyed. -/
def attachHandler (play : Player) (b : Key Batch) (action : HandlerAction)
    (captured : List (Key Endpoint)) (noisy : Bool) : Run Unit := do
  let replaced? ← takeHandler? b
  let serial := (← getState).serial
  modifyState (·.attachHandler b action captured noisy)
  record (.handlerAttached b serial)
  match replaced? with
  | none => pure ()
  | some replaced => replaced.destroy play b

/-- Takes the attached value out of a batch; its references are in flight then. -/
def takeData? (b : Key Batch) : Run (Option Attachment) := do
  match ((← getState).batches.get b).data with
  | none => return none
  | some a => do
      modifyState (·.detachData b)
      return some a

/-- Takes the attached value out of a batch if it has the right type. -/
def takeDataOf? (b : Key Batch) (type : DataType) : Run (Option Attachment) := do
  match ((← getState).batches.get b).data with
  | none => return none
  | some a =>
      if a.value.type = type then do
        let taken? ← takeData? b
        record (.dataTaken b a.serial)
        return taken?
      else
        return none

/-- Attaches a value to a batch, which takes the value's references in flight.  The value that was
there is destroyed. -/
def attachData (play : Player) (b : Key Batch) (value : DataValue) : Run Unit := do
  let replaced? ← takeData? b
  let serial := (← getState).serial
  modifyState (·.attachData b value)
  record (.dataAttached b serial)
  match replaced? with
  | none => pure ()
  | some replaced => replaced.destroy play b

end Batch

end UsbTransfer
