import UsbTransfer.Proofs.Attempts
import UsbTransfer.Proofs.Repertoires
import UsbTransfer.Proofs.Vacating

/-!
# Steps of the library

Whatever endpoints, tables, queues and buses do, they do in the steps listed here, each together
with what is recorded of it.  What is of interest differs from one account of a session to the
other: toggles, the queues and who waits there, the values of batches, or what becomes of batches
and tables.  Each account takes its own steps from these, so that the operations are gone through
only once.

Some steps bring scripts along, and those belong to a repertoire; others are events in the life of
a toggle, and those are of a kind.
-/

namespace UsbTransfer

open Run

/-! ## Toggles -/

/-- What toggles go through. -/
inductive ToggleEvent where
  /-- An endpoint came into being. -/
  | created (endpoint : Key Endpoint)
  /-- The toggle of an endpoint was set. -/
  | set (endpoint : Key Endpoint) (value : Bool)
  /-- The toggle of an endpoint was advanced. -/
  | advanced (endpoint : Key Endpoint)
  /-- A table reset the toggles of these endpoints. -/
  | reset (table : Key Table) (endpoints : List (Key Endpoint))
deriving DecidableEq

/-- All events are of this kind. -/
abbrev AnyToggleEvent : ToggleEvent → Prop := fun _ => True

namespace World

/-- The toggle of an endpoint was set. -/
def setToggle (w : World) (e : Key Endpoint) (value : Bool) : World :=
  (w.alter fun s =>
    { s with endpoints := s.endpoints.modify e fun x => { x with toggle := value } }).note
      (.toggleSet e value)

/-- The toggle of an endpoint was advanced. -/
def advanceToggle (w : World) (e : Key Endpoint) : World :=
  (w.alter fun s =>
    { s with endpoints := s.endpoints.modify e fun x => { x with toggle := !x.toggle } }).note
      (.toggleAdvanced e)

/-- The toggles of endpoints were reset, one after the other. -/
def resetEach (w : World) (es : List (Key Endpoint)) : World :=
  es.foldl (fun w e => w.setToggle e false) w

end World

namespace Endpoint

/-- Toggles that are reset one after the other. -/
theorem ensures_resetEach_eq (es : List (Key Endpoint)) (w : World) :
    Ensures (es.forM fun e => setToggle e false) w fun r w' =>
      r = .ok () ∧ w' = w.resetEach es := by
  induction es generalizing w with
  | nil => exact ⟨rfl, rfl⟩
  | cons e rest ih => exact ih (w.setToggle e false)

end Endpoint

/-! ## Calls of buses -/

namespace Occurrence

/-- The bus that is called. -/
def asked? : Occurrence → Option (Key Bus)
  | .batchRequested bus _ | .batchFarewell bus _ | .resetRequested bus _ _ _
  | .endpointFarewell bus _ => some bus
  | _ => none

end Occurrence

/-- The plan of a bus after a call: the behaviour for that call was used up. -/
def BusPlan.after (plan : BusPlan Script) : Occurrence → BusPlan Script
  | .batchRequested _ _ => { plan with batchCreate := plan.batchCreate.advance }
  | .batchFarewell _ _ => { plan with batchDestroy := plan.batchDestroy.advance }
  | .resetRequested _ _ _ _ => { plan with toggleReset := plan.toggleReset.advance }
  | .endpointFarewell _ _ => { plan with endpointDestroy := plan.endpointDestroy.advance }
  | _ => plan

/-- A bus is called, and the behaviour for the call is used up. -/
def World.called (w : World) (bus : Key Bus) (o : Occurrence) : World :=
  (w.alter (·.setPlan bus ((w.state.buses.get bus).plan.after o))).note o

/-! ## Steps -/

/-- Nothing has changed but references, what is in flight, the locks of tables, and the names of
buses, handles, tables and queues. -/
structure State.Aside (s s' : State) : Prop where
  size : s'.endpoints.size = s.endpoints.size
  toggles : ∀ e, (s'.endpoints.get e).toggle = (s.endpoints.get e).toggle
  slots : ∀ t, (s'.tables.get t).slots = (s.tables.get t).slots
  buses : s'.buses = s.buses
  queues : s'.queues = s.queues
  batches : s'.batches = s.batches
  batchNames : s'.directory.batches = s.directory.batches
  wakers : s'.directory.wakers = s.directory.wakers
  serial : s.serial ≤ s'.serial

namespace State.Aside

variable {s s' : State}

/-- Only names and what is in flight are changed. -/
theorem of_same (hendpoints : s'.endpoints = s.endpoints) (htables : s'.tables = s.tables)
    (hbuses : s'.buses = s.buses) (hqueues : s'.queues = s.queues)
    (hbatches : s'.batches = s.batches) (hnames : s'.directory.batches = s.directory.batches)
    (hwakers : s'.directory.wakers = s.directory.wakers) (hserial : s.serial ≤ s'.serial) :
    s.Aside s' where
  size := by rw [hendpoints]
  toggles := fun e => by rw [hendpoints]
  slots := fun t => by rw [htables]
  buses := hbuses
  queues := hqueues
  batches := hbatches
  batchNames := hnames
  wakers := hwakers
  serial := hserial

/-- An endpoint has more references, or fewer. -/
theorem setReferences (s : State) (e : Key Endpoint) (f : Nat → Nat)
    (inFlight : List (Key Endpoint)) :
    s.Aside { s with
      endpoints := s.endpoints.modify e fun x => { x with references := f x.references }
      inFlight := inFlight } where
  size := s.endpoints.size_modify e _
  toggles := fun e' => s.endpoints.apply_get_modify e e' _ Endpoint.toggle fun _ => rfl
  slots := fun _ => rfl
  buses := rfl
  queues := rfl
  batches := rfl
  batchNames := rfl
  wakers := rfl
  serial := Nat.le_refl _

theorem lockTable (s : State) (t : Key Table) (lock : Lock) : s.Aside (s.lockTable t lock) where
  size := rfl
  toggles := fun _ => rfl
  slots := fun t' => s.slots_lockTable t t' lock
  buses := rfl
  queues := rfl
  batches := rfl
  batchNames := rfl
  wakers := rfl
  serial := Nat.le_refl _

end State.Aside

/-- The occurrence is recorded without anything else being done. -/
def Occurrence.Incidental : Occurrence → Prop
  | .referenceTaken _ | .referenceReleased _ | .endpointFreed _ _ | .registrationRefused _ _
  | .tableResetByBus _ _ | .batchCreated _ _ | .bufferRefused _ _ | .togglesResetting _
  | .finishing _ | .resetFailed _ _ | .handlerFailed _ _ | .batchReleased _ _ | .stepEnded _
  | .tooDeep | .faultAtEnd _ => True
  | _ => False

/-- What the library does at once, with scripts of a repertoire and with events of a kind. -/
inductive LibraryStep (A : Repertoire) (P : ToggleEvent → Prop) (w : World) : World → Prop where
  | aside {f : State → State} (haside : w.state.Aside (f w.state)) : LibraryStep A P w (w.alter f)
  | note {o : Occurrence} (hincidental : o.Incidental) : LibraryStep A P w (w.note o)
  | createEndpoint (bus : Key Bus) (descriptor : Descriptor)
      (hkind : P (.created w.state.endpoints.nextKey)) :
      LibraryStep A P w
        ((w.alter (·.addEndpoint bus descriptor)).note
          (.endpointCreated w.state.endpoints.nextKey))
  | setToggle {e : Key Endpoint} {value : Bool} (hkind : P (.set e value)) :
      LibraryStep A P w (w.setToggle e value)
  | advanceToggle {e : Key Endpoint} (hkind : P (.advanced e)) :
      LibraryStep A P w (w.advanceToggle e)
  | resetToggles {t : Key Table} {target : Target} {scope : ResetScope}
      {reached : List (Key Endpoint)}
      (hreached : (w.state.tables.get t).reached w.state.targetOf target scope = reached)
      (hkind : P (.reset t reached)) :
      LibraryStep A P w ((w.resetEach reached).note (.tableReset t reached))
  /-- A bus is called for anything but a farewell to a batch. -/
  | call {bus : Key Bus} {o : Occurrence} (hasked : o.asked? = some bus)
      (hother : ∀ b, o ≠ .batchFarewell bus b) :
      LibraryStep A P w (w.called bus o)
  | addBus (name : String) {plan : BusPlan Script}
      (hplays : ∀ script ∈ plan.scripts, A.Plays script) :
      LibraryStep A P w
        (w.alter fun s => { s with
          buses := s.buses.push ⟨name, plan⟩
          directory := { s.directory with
            buses := s.directory.buses.insert name w.state.buses.nextKey } })
  | addTable :
      LibraryStep A P w (w.alter fun s => { s with tables := s.tables.push default })
  | install (t : Key Table) (e : Key Endpoint) :
      LibraryStep A P w ((w.note (.registered t e)).alter (·.install t e))
  | uninstall {t : Key Table} {slot : Nat} {e : Key Endpoint} {s : State} (target : Target)
      (hslot : w.state.uninstall? t slot = some (e, s)) :
      LibraryStep A P w ((w.note (.unregistered t target e)).alter fun _ => s)
  /-- A table gives away the endpoints of a device. -/
  | uninstallDevice {t : Key Table} {address : UInt8} {es : List (Key Endpoint)}
      {left : Slots (Key Endpoint)} (count : Nat)
      (hgives : Slots.Gives (w.state.tables.get t).slots
        ((w.state.tables.get t).deviceSlots w.state.targetOf address) es left) :
      LibraryStep A P w
        ((w.note (.deviceUnregistered t address count)).alter (·.giveAway t left es))
  | giveUpTable (t : Key Table) :
      LibraryStep A P w ((w.note (.tableGivenUp t)).alter (·.clearTable t))
  | addQueue :
      LibraryStep A P w (w.alter fun s => { s with queues := s.queues.push default })
  | arrive (q : Key Queue) (c : Completion) : LibraryStep A P w (w.arrived q c)
  | hand {q : Key Queue} {c : Completion} {rest : List Completion}
      (hpending : (w.state.queues.get q).pending = c :: rest) :
      LibraryStep A P w (w.handed q c rest)
  /-- A waker waits in a queue that was found empty. -/
  | wait {q : Key Queue} {waker : Waker} (hpending : (w.state.queues.get q).pending = [])
      (hplays : A.PlaysAny waker.code) :
      LibraryStep A P w ((w.left q waker).note (.waiting q waker.name))
  /-- A waker is left while another context pushes a completion. -/
  | race {q : Key Queue} {queue : String} {route : PollRoute} {pushed : Completion}
      (hhas : A.Has (.pollRacing queue route pushed))
      (hpending : (w.state.queues.get q).pending = []) :
      LibraryStep A P w (w.left q Session.racingWaker)
  | addWaker (name : String) {waker : Waker} (hplays : A.PlaysAny waker.code) :
      LibraryStep A P w
        (w.alter (·.setDirectory fun d => { d with wakers := d.wakers.insert name waker }))

/-! ## What accounts pass over -/

section Accounts

variable {R : World → World → Prop} {w : World}

/-- Toggles are reset one after the other. -/
theorem steps_resetEach
    (hset : ∀ (w : World) (e : Key Endpoint), Relation.ReflTransGen R w (w.setToggle e false))
    (es : List (Key Endpoint)) :
    Relation.ReflTransGen R w (w.resetEach es) := by
  induction es generalizing w with
  | nil => exact .refl
  | cons e rest ih => exact (hset w e).trans ih

/-- The account does not follow queues. -/
structure PassesQueues (R : World → World → Prop) : Prop where
  alter : ∀ {w : World} {f : State → State} {queues : Arena Queue},
    f w.state = { w.state with queues := queues } → R w (w.alter f)
  pushed : ∀ {w : World} (q : Key Queue) (c : Completion), R w (w.note (.pushed q c))
  woken : ∀ {w : World} (q : Key Queue) (name : String), R w (w.note (.woken q name))
  handedOut : ∀ {w : World} (q : Key Queue) (c : Completion), R w (w.note (.handedOut q c))

namespace PassesQueues

/-- What is noted under the lock of a queue is noted between two changes of the lock. -/
theorem noteUnder (h : PassesQueues R) {q : Key Queue} {o : Occurrence}
    (hnote : ∀ w : World, R w (w.note o)) :
    Relation.ReflTransGen R w (w.noteUnder (.queue q) o) := by
  have hunlock : R ((w.alter (View.queue q).of).note o)
      (((w.alter (View.queue q).of).note o).alter fun _ => w.state) := h.alter rfl
  exact ((Relation.ReflTransGen.single (h.alter rfl)).tail (hnote _)).tail hunlock

theorem arrived (h : PassesQueues R) (q : Key Queue) (c : Completion) :
    Relation.ReflTransGen R w (w.arrived q c) := by
  have hqueued : Relation.ReflTransGen R w (w.queued q c) :=
    (h.noteUnder fun _ => h.pushed q c).head (h.alter rfl)
  unfold World.arrived
  split
  · exact hqueued
  · exact (hqueued.tail (h.alter rfl)).tail (h.woken q _)

theorem handed (h : PassesQueues R) (q : Key Queue) (c : Completion) (rest : List Completion) :
    Relation.ReflTransGen R w (w.handed q c rest) :=
  (h.noteUnder fun _ => h.handedOut q c).head (h.alter rfl)

end PassesQueues

end Accounts

end UsbTransfer
