import UsbTransfer.Belongings
import UsbTransfer.Installation

/-!
# The end of a batch

A batch ends in one of four ways: it finishes with the outcome that its controller recorded, it
is aborted, which is to finish as cancelled, it is destroyed, or it is dropped, which comes to the
same.  A batch that finishes first has toggles reset, if its transfer failed, and then hands its
completion to its handler; neither can keep it from ending.  However a batch ends, it releases its
reference on its endpoint, its bus is told, and what it still owns is destroyed.  A fault on the
way leaves out what it interrupts, but not what remains to be released.
-/

namespace UsbTransfer

open Run

namespace Bus

/-- Asks a bus to reset toggles; `none` when it has no way to do it.  A bus that keeps a table has
the toggles reset there before its code runs. -/
def resetToggles (play : Player) (bus : Key Bus) (asker : Option (Key Batch)) (target : Target)
    (scope : ResetScope) : Run (Option (Except UsbError Unit)) := do
  let hook? ← nextHook bus (·.toggleReset)
    fun plan => { plan with toggleReset := plan.toggleReset.advance }
  record (.resetRequested bus asker target scope)
  match hook? with
  | none => return none
  | some hook => do
      match hook.reply.table.bind (← getState).directory.tables.find? with
      | none => pure ()
      | some table => do
          let count ← Table.resetToggles table target scope
          record (.tableResetByBus bus count)
      play.run none hook.code
      match hook.reply.reply with
      | .declined => return none
      | .done => return some (.ok ())
      | .failed error => return some (.error error)

/-- Tells a bus that a batch goes away.  The code of the bus has the batch at hand. -/
def batchFarewell (play : Player) (bus : Key Bus) (b : Key Batch) : Run FarewellReply := do
  let hook? ← nextHook bus (·.batchDestroy)
    fun plan => { plan with batchDestroy := plan.batchDestroy.advance }
  record (.batchFarewell bus b)
  match hook? with
  | none => return .declined
  | some hook => do
      play.run (some b) hook.code
      return hook.reply

end Bus

namespace Batch

/-- Has toggles reset if the transfer of a batch failed.  A released batch has no bus to ask. -/
def resetToggles (play : Player) (b : Key Batch) : Run (Except UsbError Unit) := do
  let s ← getState
  let transfer := s.transferOf b
  if transfer.NeedsReset then
    record (.togglesResetting b)
    match (s.batches.get b).endpoint with
    | none => throw .batchReleased
    | some e => do
        match ← Bus.resetToggles play (s.busOf e) (some b) transfer.target transfer.scope with
        | none => return .error .noToggleReset
        | some outcome => return outcome
  else
    return .ok ()

/-- Hands the completion of a batch, with its buffer, to the handler, if there is one. -/
def deliver (play : Player) (b : Key Batch) : Run Unit := do
  match ← takeHandler? b with
  | none => pure ()
  | some h => do
      let completion := ((← getState).transferOf b).completion
      modifyTransfer b Transfer.withoutBuffer
      match ← h.invoke play b completion with
      | none => pure ()
      | some error => record (.handlerFailed b error)

/-- Releases the reference of a batch on its endpoint and tells the bus, unless that was done
before.  The reference leaves the batch before anything else can go wrong. -/
def release (play : Player) (b : Key Batch) : Run Unit := do
  let s ← getState
  match (s.batches.get b).endpoint with
  | none => pure ()
  | some e => do
      modifyState (·.detachEndpoint b)
      record (.endpointGivenUp b e)
      Endpoint.release play e
      let reply ← Bus.batchFarewell play (s.busOf e) b
      record (.batchReleased b reply)

/-- Destroys what a batch still owns, the handler first. -/
def destroyBelongings (play : Player) (b : Key Batch) : Run Unit :=
  ensuring
    (do
      match ← takeHandler? b with
      | none => pure ()
      | some h => h.destroy play b)
    (do
      match ← takeData? b with
      | none => pure ()
      | some a => a.destroy play b)

/-- Ends a batch after it did the given.  The batch is released then, unless it was released
before, and what it still owns is destroyed. -/
def endAfter (play : Player) (b : Key Batch) (body : Run Unit) : Run Unit :=
  ensuring (ensuring body (release play b))
    (ensuring (destroyBelongings play b) (record (.batchEnded b)))

/-- Finishes a batch with the outcome that was recorded. -/
def finish (play : Player) (b : Key Batch) : Run Unit :=
  endAfter play b do
    record (.finishing b)
    match ← resetToggles play b with
    | .ok () => pure ()
    | .error error => record (.resetFailed b error)
    deliver play b
    release play b

/-- Finishes a batch as cancelled. -/
def abort (play : Player) (b : Key Batch) : Run Unit := do
  modifyTransfer b Transfer.cancel
  finish play b

/-- Ends a batch without a completion. -/
def destroy (play : Player) (b : Key Batch) : Run Unit :=
  endAfter play b (release play b)

/-- Ends a batch that is given up without more ado. -/
def drop (play : Player) (b : Key Batch) : Run Unit :=
  endAfter play b (pure ())

end Batch

end UsbTransfer
