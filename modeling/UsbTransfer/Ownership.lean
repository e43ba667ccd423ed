import UsbTransfer.Run

/-!
# Ownership of endpoints

References on endpoints are taken and released here and nowhere else.  An operation that takes a
reference has it in flight until it is put somewhere, and whoever gives a reference away puts it
in flight before it is released.  The last release frees the endpoint and lets its bus know.

User code runs wherever a bus is told of something.  What runs it is a parameter of all that may
call it.
-/

namespace UsbTransfer

open Run

/-- What carries out a script.  In the script of some hooks one batch goes without a name. -/
abbrev Player := Option (Key Batch) → Script → Run Unit

/-- Carries out a script if there is one. -/
def Player.run (play : Player) (atHand : Option (Key Batch)) : Option Script → Run Unit
  | none => pure ()
  | some script => play atHand script

namespace Bus

/-- What a bus does at this call; the behaviour is used up unless it is the last one. -/
def nextHook {α : Type} (bus : Key Bus) (schedule : BusPlan Script → Schedule α)
    (used : BusPlan Script → BusPlan Script) : Run (Option α) := do
  let plan := ((← getState).buses.get bus).plan
  modifyState fun s => { s with buses := s.buses.modify bus fun b => { b with plan := used plan } }
  return (schedule plan).current?

/-- Tells a bus that no reference on an endpoint is left. -/
def endpointFarewell (play : Player) (bus : Key Bus) (e : Key Endpoint) : Run FarewellReply := do
  let hook? ← nextHook bus (·.endpointDestroy)
    fun plan => { plan with endpointDestroy := plan.endpointDestroy.advance }
  record (.endpointFarewell bus e)
  match hook? with
  | none => return .declined
  | some hook => do
      play.run none hook.code
      return hook.reply

end Bus

namespace Endpoint

/-- Brings an endpoint into being, with one reference that is in flight. -/
def create (bus : Key Bus) (descriptor : Descriptor) : Run (Key Endpoint) := do
  let e := (← getState).endpoints.nextKey
  modifyState (·.addEndpoint bus descriptor)
  record (.endpointCreated e)
  return e

/-- Takes one more reference, which is in flight. -/
def acquire (e : Key Endpoint) : Run Unit := do
  if ((← getState).endpoints.get e).references = 0 then
    throw .takenAfterRelease
  else do
    modifyState (·.gainReference e)
    record (.referenceTaken e)

/-- Frees an endpoint without references, when its bus has been told. -/
def free (play : Player) (e : Key Endpoint) : Run Unit := do
  let reply ← Bus.endpointFarewell play ((← getState).busOf e) e
  record (.endpointFreed e reply)

/-- Releases a reference that is in flight; the last one frees the endpoint. -/
def release (play : Player) (e : Key Endpoint) : Run Unit := do
  match ((← getState).endpoints.get e).references with
  | 0 => throw .releasedTwice
  | left + 1 => do
      modifyState (·.loseReference e)
      record (.referenceReleased e)
      if left = 0 then free play e else pure ()

/-- Releases references that are in flight, in order.  A fault does not keep the later ones. -/
def releaseAll (play : Player) : List (Key Endpoint) → Run Unit
  | [] => pure ()
  | e :: rest => ensuring (release play e) (releaseAll play rest)

/-- Sets the toggle of an endpoint. -/
def setToggle (e : Key Endpoint) (value : Bool) : Run Unit := do
  modifyState fun s =>
    { s with endpoints := s.endpoints.modify e fun x => { x with toggle := value } }
  record (.toggleSet e value)

/-- Flips the toggle of an endpoint and tells its new value. -/
def advanceToggle (e : Key Endpoint) : Run Bool := do
  modifyState fun s =>
    { s with endpoints := s.endpoints.modify e fun x => { x with toggle := !x.toggle } }
  record (.toggleAdvanced e)
  return ((← getState).endpoints.get e).toggle

end Endpoint

end UsbTransfer
