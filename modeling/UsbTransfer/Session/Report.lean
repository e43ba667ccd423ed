import UsbTransfer.History

/-!
# Reports

What an observer sees of a history.  Some occurrences are logged at a level of their own, and show
if that level is enabled; the calls of user code are always seen, except those of silent buses;
the rest is not seen at all.
-/

namespace UsbTransfer

/-- The levels of log messages, the gravest first. -/
inductive Level where
  | error
  | warn
  | info
  | debug
  | trace
deriving DecidableEq, Repr

namespace Level

/-- The name of a level. -/
def word : Level → String
  | .error => "ERROR"
  | .warn => "WARN"
  | .info => "INFO"
  | .debug => "DEBUG"
  | .trace => "TRACE"

/-- The place of a level among the levels. -/
def rank : Level → Nat
  | .error => 1
  | .warn => 2
  | .info => 3
  | .debug => 4
  | .trace => 5

end Level

/-- How much is logged: nothing, or all that is at least as grave as a level. -/
abbrev Verbosity := Option Level

/-- Whether messages of a level are shown. -/
def Level.ShownAt (level : Level) (verbosity : Verbosity) : Prop :=
  match verbosity with
  | none => False
  | some least => level.rank ≤ least.rank

instance (level : Level) (verbosity : Verbosity) : Decidable (level.ShownAt verbosity) :=
  match verbosity with
  | none => inferInstanceAs (Decidable False)
  | some _ => inferInstanceAs (Decidable (_ ≤ _))

/-- What an observer sees. -/
inductive Report where
  | logged (level : Level) (text : String)
  | batchRequested (bus : String) (target : Target) (references : Nat)
  | batchFarewell (bus : String) (batch : BatchView)
  | resetRequested (bus : String) (target : Target) (scope : ResetScope)
  | endpointFarewell (bus : String) (endpoint : HandleView)
  | tableReset (count : Nat)
  | handlerInvoked (handler : String) (completion : Completion)
  | handlerDestroyed (handler : String)
  | dataDestroyed (text : String)
  | woken (waker : String)
  | stepEnded (result : Result)
  | tooDeep
  | faultAtEnd (message : String)
deriving DecidableEq, Repr

namespace Moment

/-- The line that stands for a batch at the moment. -/
def lineOf (m : Moment) (b : Key Batch) : String :=
  (m.state.transferOf b).summary.text

/-- The log message of a moment. -/
def log? (m : Moment) : Option (Level × String) :=
  let s := m.state
  match m.occurrence with
  | .endpointCreated e =>
      some (.trace, "Creating endpoint " ++ (s.targetOf e).text ++ " on " ++ s.labelOf (s.busOf e))
  | .endpointFreed e .done =>
      some (.trace, "Endpoint " ++ (s.targetOf e).text ++ " destroyed by bus")
  | .endpointFreed e .declined =>
      some (.trace, "Endpoint " ++ (s.targetOf e).text ++ " disposed")
  | .registered _ e => some (.debug, "Registered endpoint " ++ (s.targetOf e).text)
  | .registrationRefused _ _ => some (.debug, UsbError.alreadyRegistered.message)
  | .unregistered _ target _ => some (.debug, "Unregistered endpoint " ++ target.text)
  | .deviceUnregistered _ address count =>
      some (.debug, "Unregistering " ++ toString count ++ " endpoints of device " ++
        toString address.toNat)
  | .batchCreated b bus =>
      some (.trace, "Batch " ++ m.lineOf b ++ " created on " ++ s.labelOf bus)
  | .bufferRefused _ _ => some (.error, UsbError.bufferRefused.message)
  | .togglesResetting b =>
      let which := if (s.transferOf b).scope = .device then "all EPs toggle" else "EP toggle"
      some (.debug, "Batch " ++ m.lineOf b ++ " resets " ++ which)
  | .finishing b => some (.debug, "Batch " ++ m.lineOf b ++ " finishing")
  | .resetFailed b error =>
      some (.warn, "Batch " ++ m.lineOf b ++ " failed to reset toggle: " ++ error.message)
  | .handlerFailed b error =>
      some (.warn, "Batch " ++ m.lineOf b ++ " failed to complete: " ++ error.message)
  | .batchReleased b .done => some (.trace, "Batch " ++ m.lineOf b ++ " destroyed")
  | .batchReleased b .declined => some (.trace, "Batch " ++ m.lineOf b ++ " disposed")
  | _ => none

/-- The report of a call of a bus, unless the bus is silent. -/
def ofBus (m : Moment) (bus : Key Bus) (report : String → Report) : Option Report :=
  let bus := m.state.buses.get bus
  if bus.plan.silent then none else some (report bus.name)

/-- The report of a moment that is no log message. -/
def event? (m : Moment) : Option Report :=
  let s := m.state
  match m.occurrence with
  | .batchRequested bus e =>
      m.ofBus bus (.batchRequested · (s.targetOf e) (s.endpoints.get e).references)
  | .batchFarewell bus b => m.ofBus bus (.batchFarewell · (s.batchView b))
  | .resetRequested bus _ target scope => m.ofBus bus (.resetRequested · target scope)
  | .endpointFarewell bus e => m.ofBus bus (.endpointFarewell · (s.handleView e))
  | .tableResetByBus _ count => some (.tableReset count)
  | .handlerInvoked _ _ (some name) completion => some (.handlerInvoked name completion)
  | .handlerDestroyed _ _ (some name) => some (.handlerDestroyed name)
  | .dataDestroyed _ _ (some text) => some (.dataDestroyed text)
  | .woken _ waker => some (.woken waker)
  | .stepEnded result => some (.stepEnded result)
  | .tooDeep => some .tooDeep
  | .faultAtEnd fault => some (.faultAtEnd fault.message)
  | _ => none

/-- What an observer sees of a moment. -/
def report? (verbosity : Verbosity) (m : Moment) : Option Report :=
  match m.log? with
  | some (level, text) => if level.ShownAt verbosity then some (.logged level text) else none
  | none => m.event?

end Moment

end UsbTransfer
