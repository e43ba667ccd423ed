import UsbTransfer.Session.CarryOut
import Mathlib.Data.List.Forall2

/-!
# Likeness

Some of what user code answers is asked for on a best-effort basis: whether it did anything when
an object went away, whether it reset toggles, whether a handler was content.  A bus may also
build the batch that it would get anyway.  Commands are alike when they differ at most in such
answers, and so do the commands that they bring along; what happens before an answer is given is
the same.  States are alike when they differ at most in the scripts and answers that are laid down
in them, and these are alike.
-/

namespace UsbTransfer

theorem optionRel_refl {α : Type} {R : α → α → Prop} (hR : ∀ a, R a a) :
    ∀ a? : Option α, Option.Rel R a? a?
  | none => .none
  | some a => .some (hR a)

/-! ## What user code does -/

namespace Schedule

variable {α : Type}

/-- The behaviour at a call that so many others precede. -/
def call? (s : Schedule α) : Nat → Option α
  | 0 => s.current?
  | k + 1 => s.advance.call? k

theorem call?_singleton (a : α) (k : Nat) : (⟨[a]⟩ : Schedule α).call? k = some a := by
  induction k with
  | zero => rfl
  | succ k ih => exact ih

end Schedule

namespace Hook

/-- The script that is played at a call, if there is one. -/
def code? {Reply : Type} (hook? : Option (Hook Script Reply)) : Option Script :=
  hook?.bind (·.code)

/-- The table in which a bus resets toggles at a call. -/
def table? (hook? : Option (Hook Script ResetAction)) : Option String :=
  hook?.bind (·.reply.table)

/-- Without playing a script, the bus builds the batch that the general behaviour builds, or
leaves that to the general behaviour. -/
def BuildsPlainly : Option (Hook Script BuildReply) → Prop
  | none | some ⟨none, .declined⟩ | some ⟨none, .built none⟩ => True
  | _ => False

/-- Two behaviours of a bus that is asked for a batch come to the same. -/
inductive BuildAlike (R : Script → Script → Prop) :
    Option (Hook Script BuildReply) → Option (Hook Script BuildReply) → Prop where
  | plainly {hook? hook?' : Option (Hook Script BuildReply)} (h : BuildsPlainly hook?)
      (h' : BuildsPlainly hook?') :
      BuildAlike R hook? hook?'
  | same {code code' : Option Script} (hcode : Option.Rel R code code') (reply : BuildReply) :
      BuildAlike R (some ⟨code, reply⟩) (some ⟨code', reply⟩)

end Hook

/-- Two plans with the same effects before each answer.  The answers may differ, except to the
request for a batch where a script is played or no plain batch is built. -/
inductive BusPlan.Alike (R : Script → Script → Prop) : BusPlan Script → BusPlan Script → Prop where
  | intro {label : String} {silent : Bool} {create create' : Schedule (Hook Script BuildReply)}
      {destroy destroy' : Schedule (Hook Script FarewellReply)}
      {reset reset' : Schedule (Hook Script ResetAction)}
      {farewell farewell' : Schedule (Hook Script FarewellReply)}
      (hcreate : ∀ k, Hook.BuildAlike R (create.call? k) (create'.call? k))
      (hdestroy : ∀ k,
        Option.Rel R (Hook.code? (destroy.call? k)) (Hook.code? (destroy'.call? k)))
      (htable : ∀ k, Hook.table? (reset'.call? k) = Hook.table? (reset.call? k))
      (hreset : ∀ k, Option.Rel R (Hook.code? (reset.call? k)) (Hook.code? (reset'.call? k)))
      (hfarewell : ∀ k,
        Option.Rel R (Hook.code? (farewell.call? k)) (Hook.code? (farewell'.call? k))) :
      BusPlan.Alike R ⟨label, silent, create, destroy, reset, farewell⟩
        ⟨label, silent, create', destroy', reset', farewell'⟩

/-- Two commands that differ at most in answers of the user code that they bring along. -/
inductive Command.Alike : Command → Command → Prop where
  | same (command : Command) : Alike command command
  | addBus (name : String) {plan plan' : BusPlan Script}
      (hplan : BusPlan.Alike (List.Forall₂ Alike) plan plan') :
      Alike (.addBus name plan) (.addBus name plan')
  | onComplete (batch name : String) {code code' : Option Script}
      (hcode : Option.Rel (List.Forall₂ Alike) code code') (reply reply' : Option UsbError)
      (captured : List String) (noisy : Bool) :
      Alike (.onComplete batch ⟨name, code, reply, captured, noisy⟩)
        (.onComplete batch ⟨name, code', reply', captured, noisy⟩)
  | addWaker (name : String) {code code' : Option Script}
      (hcode : Option.Rel (List.Forall₂ Alike) code code') :
      Alike (.addWaker name code) (.addWaker name code')

/-- Two scripts of alike commands. -/
abbrev Script.Alike : Script → Script → Prop :=
  List.Forall₂ Command.Alike

theorem Script.Alike.refl (script : Script) : Script.Alike script script :=
  List.forall₂_same.mpr fun command _ => .same command

/-- Two scripts of alike commands, or no scripts. -/
abbrev CodeAlike : Option Script → Option Script → Prop :=
  Option.Rel Script.Alike

theorem CodeAlike.refl : ∀ code : Option Script, CodeAlike code code :=
  optionRel_refl Script.Alike.refl

namespace BusPlan

theorem Alike.refl (plan : BusPlan Script) : Alike Script.Alike plan plan := by
  obtain ⟨label, silent, create, destroy, reset, farewell⟩ := plan
  refine .intro (fun k => ?_) (fun _ => CodeAlike.refl _) (fun _ => rfl)
    (fun _ => CodeAlike.refl _) fun _ => CodeAlike.refl _
  rcases create.call? k with _ | ⟨code, reply⟩
  · exact .plainly trivial trivial
  · exact .same (CodeAlike.refl code) reply

variable {R : Script → Script → Prop} {plan plan' : BusPlan Script}

theorem Alike.label_eq (h : Alike R plan plan') : plan'.label = plan.label := by
  cases h
  rfl

theorem Alike.silent_eq (h : Alike R plan plan') : plan'.silent = plan.silent := by
  cases h
  rfl

end BusPlan

/-! ## States -/

/-- Two arenas with as many objects, which are pairwise related. -/
structure Arena.Alike {α : Type} [Inhabited α] (R : α → α → Prop) (a a' : Arena α) : Prop where
  size : a'.size = a.size
  get : ∀ k, R (a.get k) (a'.get k)

namespace Arena.Alike

variable {α : Type} [Inhabited α] {R : α → α → Prop} {a a' : Arena α}

theorem nextKey (h : a.Alike R a') : a'.nextKey = a.nextKey := by
  exact Key.ext h.size

theorem push (h : a.Alike R a') {x x' : α} (hx : R x x') :
    (a.push x).Alike R (a'.push x') where
  size := by simp [h.size]
  get := by
    intro k
    rw [Arena.get_push, Arena.get_push, h.nextKey]
    split
    · exact hx
    · exact h.get k

theorem modify (h : a.Alike R a') (k : Key α) {f f' : α → α}
    (hf : ∀ x x', R x x' → R (f x) (f' x')) :
    (a.modify k f).Alike R (a'.modify k f') where
  size := by simp [h.size]
  get := by
    intro k'
    rw [Arena.get_modify, Arena.get_modify, h.size]
    split
    · exact hf _ _ (h.get k)
    · exact h.get k'

end Arena.Alike

structure Bus.Alike (bus bus' : Bus) : Prop where
  name : bus'.name = bus.name
  plan : BusPlan.Alike Script.Alike bus.plan bus'.plan

theorem Bus.Alike.refl (bus : Bus) : bus.Alike bus :=
  ⟨rfl, .refl bus.plan⟩

/-- Two handlers that differ at most in what they answer and what their scripts answer. -/
inductive HandlerAction.Alike : HandlerAction → HandlerAction → Prop where
  | run (name : String) {code code' : Option Script} (hcode : CodeAlike code code')
      (reply reply' : Option UsbError) :
      Alike (.run name code reply) (.run name code' reply')
  | forward (q : Key Queue) : Alike (.forward q) (.forward q)

theorem HandlerAction.Alike.refl : ∀ action : HandlerAction, action.Alike action
  | .run name code reply => .run name (CodeAlike.refl code) reply reply
  | .forward q => .forward q

structure Handler.Alike (h h' : Handler) : Prop where
  serial : h'.serial = h.serial
  action : h.action.Alike h'.action
  captured : h'.captured = h.captured
  noisy : h'.noisy = h.noisy

theorem Handler.Alike.refl (h : Handler) : h.Alike h :=
  ⟨rfl, .refl h.action, rfl, rfl⟩

theorem Handler.Alike.name? {h h' : Handler} (halike : h.Alike h') : h'.name? = h.name? := by
  obtain ⟨serial, action, captured, noisy⟩ := h
  obtain ⟨serial', action', captured', noisy'⟩ := h'
  cases halike.action <;> rfl

theorem Handler.captured_of_alike {handler? handler?' : Option Handler}
    (h : Option.Rel Handler.Alike handler? handler?') :
    handler?'.map (·.captured) = handler?.map (·.captured) := by
  cases h with
  | none => rfl
  | some halike => exact congrArg some halike.captured

structure Batch.Alike (batch batch' : Batch) : Prop where
  transfer : batch'.transfer = batch.transfer
  endpoint : batch'.endpoint = batch.endpoint
  handler : Option.Rel Handler.Alike batch.handler batch'.handler
  data : batch'.data = batch.data

theorem Batch.Alike.refl (batch : Batch) : batch.Alike batch :=
  ⟨rfl, rfl, optionRel_refl Handler.Alike.refl batch.handler, rfl⟩

structure Waker.Alike (waker waker' : Waker) : Prop where
  name : waker'.name = waker.name
  code : CodeAlike waker.code waker'.code

theorem Waker.Alike.refl (waker : Waker) : waker.Alike waker :=
  ⟨rfl, .refl waker.code⟩

structure Queue.Alike (queue queue' : Queue) : Prop where
  pending : queue'.pending = queue.pending
  waker : Option.Rel Waker.Alike queue.waker queue'.waker
  lock : queue'.lock = queue.lock

theorem Queue.Alike.refl (queue : Queue) : queue.Alike queue :=
  ⟨rfl, optionRel_refl Waker.Alike.refl queue.waker, rfl⟩

/-- The same names for related values. -/
abbrev Names.Alike {α : Type} (R : α → α → Prop) (m m' : Names α) : Prop :=
  List.Forall₂ (fun entry entry' => entry'.1 = entry.1 ∧ R entry.2 entry'.2) m.entries m'.entries

namespace Names.Alike

variable {α : Type} {R : α → α → Prop} {m m' : Names α}

theorem find? (h : m.Alike R m') (name : String) :
    Option.Rel R (m.find? name) (m'.find? name) := by
  obtain ⟨entries⟩ := m
  obtain ⟨entries'⟩ := m'
  change List.Forall₂ _ entries entries' at h
  unfold Names.find?
  induction h with
  | nil => exact .none
  | @cons entry entry' rest rest' hentry _ ih =>
      obtain ⟨hname, hvalue⟩ := hentry
      simp only [List.find?_cons, hname]
      split
      · exact .some hvalue
      · exact ih

theorem erase (h : m.Alike R m') (name : String) : (m.erase name).Alike R (m'.erase name) := by
  obtain ⟨entries⟩ := m
  obtain ⟨entries'⟩ := m'
  change List.Forall₂ _ entries entries' at h
  unfold Names.erase Names.Alike
  induction h with
  | nil => exact .nil
  | @cons entry entry' rest rest' hentry hrest ih =>
      simp only [List.eraseP_cons, hentry.1]
      cases decide (entry.1 = name) with
      | true => exact hrest
      | false => exact .cons hentry ih

theorem insert (h : m.Alike R m') (name : String) {value value' : α} (hvalue : R value value') :
    (m.insert name value).Alike R (m'.insert name value') := by
  have herase := h.erase name
  unfold Names.Alike Names.insert at *
  generalize (m.erase name).entries = entries, (m'.erase name).entries = entries' at herase
  induction herase with
  | nil => exact .cons ⟨rfl, hvalue⟩ .nil
  | @cons entry entry' rest rest' hentry hrest ih =>
      simp only [Names.place, hentry.1]
      split
      · exact .cons ⟨rfl, hvalue⟩ (.cons hentry hrest)
      · exact .cons hentry ih

end Names.Alike

structure Directory.Alike (d d' : Directory) : Prop where
  buses : d'.buses = d.buses
  handles : d'.handles = d.handles
  tables : d'.tables = d.tables
  batches : d'.batches = d.batches
  queues : d'.queues = d.queues
  wakers : d.wakers.Alike Waker.Alike d'.wakers
  loans : d'.loans = d.loans

theorem Directory.Alike.refl (d : Directory) : d.Alike d :=
  ⟨rfl, rfl, rfl, rfl, rfl, List.forall₂_same.mpr fun _ _ => ⟨rfl, .refl _⟩, rfl⟩

/-- Two states that differ at most in answers to come. -/
structure State.Alike (s s' : State) : Prop where
  buses : s.buses.Alike Bus.Alike s'.buses
  endpoints : s'.endpoints = s.endpoints
  tables : s'.tables = s.tables
  queues : s.queues.Alike Queue.Alike s'.queues
  batches : s.batches.Alike Batch.Alike s'.batches
  directory : s.directory.Alike s'.directory
  inFlight : s'.inFlight = s.inFlight
  serial : s'.serial = s.serial

namespace State.Alike

variable {s s' : State}

theorem refl (s : State) : s.Alike s where
  buses := ⟨rfl, fun _ => .refl _⟩
  endpoints := rfl
  tables := rfl
  queues := ⟨rfl, fun _ => .refl _⟩
  batches := ⟨rfl, fun _ => .refl _⟩
  directory := .refl s.directory
  inFlight := rfl
  serial := rfl

/-! What is read from alike states is the same. -/

theorem targetOf (h : s.Alike s') : s'.targetOf = s.targetOf := by
  unfold State.targetOf
  rw [h.endpoints]

theorem busOf (h : s.Alike s') : s'.busOf = s.busOf := by
  unfold State.busOf
  rw [h.endpoints]

theorem transferOf (h : s.Alike s') : s'.transferOf = s.transferOf :=
  funext fun b => (h.batches.get b).transfer

theorem labelOf (h : s.Alike s') : s'.labelOf = s.labelOf :=
  funext fun bus => (h.buses.get bus).plan.label_eq

theorem endpointView (h : s.Alike s') : s'.endpointView = s.endpointView := by
  unfold State.endpointView
  rw [h.endpoints, h.labelOf]

theorem handleView (h : s.Alike s') : s'.handleView = s.handleView := by
  unfold State.handleView
  rw [h.endpoints]

theorem batchView (h : s.Alike s') : s'.batchView = s.batchView := by
  funext b
  simp only [State.batchView, h.endpoints, (h.batches.get b).transfer,
    (h.batches.get b).endpoint]

theorem dataAnswer (h : s.Alike s') : Session.dataAnswer s' = Session.dataAnswer s := by
  funext value
  cases value with
  | number | text | noisy => rfl
  | handle e => exact congrArg Answer.target (congrFun h.targetOf e)

theorem onLoan (h : s.Alike s') (handle : Handle) :
    s'.directory.OnLoan handle ↔ s.directory.OnLoan handle := by
  unfold Directory.OnLoan
  rw [h.directory.loans]

/-! Alike states stay alike through the same change. -/

theorem modifyEndpoint (h : s.Alike s') (e : Key Endpoint) (f : Endpoint → Endpoint) :
    State.Alike { s with endpoints := s.endpoints.modify e f }
      { s' with endpoints := s'.endpoints.modify e f } :=
  { h with endpoints := congrArg (·.modify e f) h.endpoints }

theorem modifyTable (h : s.Alike s') (t : Key Table) (f : Table → Table) :
    State.Alike { s with tables := s.tables.modify t f }
      { s' with tables := s'.tables.modify t f } :=
  { h with tables := congrArg (·.modify t f) h.tables }

theorem modifyQueue (h : s.Alike s') (q : Key Queue) {f f' : Queue → Queue}
    (hf : ∀ queue queue', Queue.Alike queue queue' → Queue.Alike (f queue) (f' queue')) :
    State.Alike { s with queues := s.queues.modify q f }
      { s' with queues := s'.queues.modify q f' } :=
  { h with queues := h.queues.modify q hf }

theorem modifyBatch (h : s.Alike s') (b : Key Batch) {f f' : Batch → Batch}
    (hf : ∀ batch batch', Batch.Alike batch batch' → Batch.Alike (f batch) (f' batch')) :
    State.Alike { s with batches := s.batches.modify b f }
      { s' with batches := s'.batches.modify b f' } :=
  { h with batches := h.batches.modify b hf }

theorem setDirectory (h : s.Alike s') {f f' : Directory → Directory}
    (hf : ∀ d d', Directory.Alike d d' → Directory.Alike (f d) (f' d')) :
    State.Alike { s with directory := f s.directory } { s' with directory := f' s'.directory } :=
  { h with directory := hf _ _ h.directory }

theorem addEndpoint (h : s.Alike s') (bus : Key Bus) (descriptor : Descriptor) :
    (s.addEndpoint bus descriptor).Alike (s'.addEndpoint bus descriptor) :=
  { h with
    endpoints := congrArg (·.push ⟨descriptor, bus, false, 1⟩) h.endpoints
    inFlight := by simp only [State.addEndpoint, h.endpoints, h.inFlight] }

theorem gainReference (h : s.Alike s') (e : Key Endpoint) :
    (s.gainReference e).Alike (s'.gainReference e) :=
  { h with
    endpoints := by simp only [State.gainReference, h.endpoints]
    inFlight := congrArg (e :: ·) h.inFlight }

theorem loseReference (h : s.Alike s') (e : Key Endpoint) :
    (s.loseReference e).Alike (s'.loseReference e) :=
  { h with
    endpoints := by simp only [State.loseReference, h.endpoints]
    inFlight := congrArg (·.erase e) h.inFlight }

theorem install (h : s.Alike s') (t : Key Table) (e : Key Endpoint) :
    (s.install t e).Alike (s'.install t e) :=
  { h with
    tables := by simp only [State.install, h.tables]
    inFlight := congrArg (·.erase e) h.inFlight }

theorem uninstall? (h : s.Alike s') (t : Key Table) (slot : Nat) :
    Option.Rel (fun x x' => x'.1 = x.1 ∧ x.2.Alike x'.2) (s.uninstall? t slot)
      (s'.uninstall? t slot) := by
  simp only [State.uninstall?, h.tables, h.inFlight]
  cases (s.tables.get t).slots.remove? slot with
  | none => exact .none
  | some removed => exact .some ⟨rfl, { h with tables := rfl, inFlight := rfl }⟩

theorem clearTable (h : s.Alike s') (t : Key Table) :
    (s.clearTable t).Alike (s'.clearTable t) :=
  { h with
    tables := by simp only [State.clearTable, h.tables]
    inFlight := by simp only [State.clearTable, h.tables, h.inFlight] }

theorem addBatch (h : s.Alike s') (e : Key Endpoint) :
    (s.addBatch e).Alike (s'.addBatch e) :=
  { h with
    batches := h.batches.push ⟨by rw [h.endpoints], rfl, .none, rfl⟩
    inFlight := congrArg (·.erase e) h.inFlight }

theorem detachEndpoint (h : s.Alike s') (b : Key Batch) :
    (s.detachEndpoint b).Alike (s'.detachEndpoint b) :=
  { h with
    batches := h.batches.modify b fun _ _ hbatch => { hbatch with endpoint := rfl }
    inFlight := by simp only [State.detachEndpoint, (h.batches.get b).endpoint, h.inFlight] }

theorem detachHandler (h : s.Alike s') (b : Key Batch) :
    (s.detachHandler b).Alike (s'.detachHandler b) :=
  { h with
    batches := h.batches.modify b fun _ _ hbatch => { hbatch with handler := .none }
    inFlight := by
      simp only [State.detachHandler, h.inFlight,
        Handler.captured_of_alike (h.batches.get b).handler] }

theorem attachHandler (h : s.Alike s') (b : Key Batch) {action action' : HandlerAction}
    (haction : action.Alike action') (captured : List (Key Endpoint)) (noisy : Bool) :
    (s.attachHandler b action captured noisy).Alike
      (s'.attachHandler b action' captured noisy) :=
  { h with
    batches := h.batches.modify b fun _ _ hbatch =>
      { hbatch with handler := .some ⟨h.serial, haction, rfl, rfl⟩ }
    inFlight := congrArg (captured.foldl List.erase ·) h.inFlight
    serial := congrArg (· + 1) h.serial }

theorem detachData (h : s.Alike s') (b : Key Batch) :
    (s.detachData b).Alike (s'.detachData b) :=
  { h with
    batches := h.batches.modify b fun _ _ hbatch => { hbatch with data := rfl }
    inFlight := by simp only [State.detachData, (h.batches.get b).data, h.inFlight] }

theorem attachData (h : s.Alike s') (b : Key Batch) (value : DataValue) :
    (s.attachData b value).Alike (s'.attachData b value) :=
  { h with
    batches := h.batches.modify b fun _ _ hbatch => { hbatch with data := by rw [h.serial] }
    inFlight := congrArg (value.captured.foldl List.erase ·) h.inFlight
    serial := congrArg (· + 1) h.serial }

theorem keepHandle (h : s.Alike s') (name : String) (e : Key Endpoint) :
    (s.keepHandle name e).Alike (s'.keepHandle name e) :=
  { h with
    directory := { h.directory with
      handles := by simp only [State.keepHandle, h.directory.handles, h.serial] }
    inFlight := by simp only [State.keepHandle, h.directory.handles, h.inFlight]
    serial := congrArg (· + 1) h.serial }

theorem takeHandle (h : s.Alike s') (name : String) :
    (s.takeHandle name).Alike (s'.takeHandle name) :=
  { h with
    directory := { h.directory with
      handles := by simp only [State.takeHandle, h.directory.handles] }
    inFlight := by simp only [State.takeHandle, h.directory.handles, h.inFlight] }

end State.Alike

end UsbTransfer
