import UsbTransfer.Proofs.LibrarySteps

/-!
# Walks through the library

Suppose that an account of a session has a sequence of steps of its own for every step of the
library, and that the scripts that are played go by such steps.  Then so do all operations on
endpoints, tables and queues, and so does whatever is put together from them.
-/

namespace UsbTransfer

open Run

/-- The steps of the library, and the scripts that it has played, go by steps of one relation.  As
to scripts, only worlds count in which all that are laid down belong to the repertoire. -/
structure LibraryWalk (R : World → World → Prop) (A : Repertoire) (P : ToggleEvent → Prop)
    (play : Player) : Prop where
  step : ∀ {w w'}, LibraryStep A P w w' → Relation.ReflTransGen R w w'
  known : ∀ {α : Type} {m : Run α},
    (∀ w, A.Knows w.state → Ensures m w fun _ w' => Relation.ReflTransGen R w w') → Follows R m
  run : ∀ {code}, A.PlaysAny code → Follows R (play.run none code)

/-- An edit of a batch that may be refused. -/
theorem Batch.follows_edit {R : World → World → Prop} {b : Key Batch}
    (hmodify : ∀ f, Follows R (Batch.modifyTransfer b f)) (edited : State → Except Fault Transfer) :
    Follows R (do
      let s ← getState
      let transfer ← ofExcept (edited s)
      Batch.modifyTransfer b fun _ => transfer) := by
  refine follows_getState_bind fun s => ?_
  cases edited s with
  | error fault => exact Follows.bind (follows_throw fault) fun _ => hmodify _
  | ok transfer => exact Follows.bind (follows_pure transfer) fun _ => hmodify _

namespace LibraryWalk

variable {R : World → World → Prop} {A : Repertoire} {P : ToggleEvent → Prop} {play : Player}
  {α β : Type}

theorem modifyState (h : LibraryWalk R A P play) {f : State → State}
    (hf : ∀ s : State, s.Aside (f s)) :
    Follows R (modifyState f) :=
  fun w => h.step (.aside (hf w.state))

theorem record (h : LibraryWalk R A P play) {o : Occurrence} (ho : o.Incidental) :
    Follows R (record o) :=
  fun _ => h.step (.note ho)

/-- What comes after a step of the relation goes on by steps. -/
theorem after {m : Run α} {w w' : World} (hm : Follows R m)
    (hsteps : Relation.ReflTransGen R w w') :
    Ensures m w' fun _ w'' => Relation.ReflTransGen R w w'' :=
  Ensures.mono (hm w') fun _ _ hr => hsteps.trans hr

/-- A bus is called, and a behaviour is used up by that.  What the bus does then is up to a hook
with a script of the repertoire. -/
theorem called (h : LibraryWalk R A P play) {Reply : Type} {bus : Key Bus} {o : Occurrence}
    {schedule : BusPlan Script → Schedule (Hook Script Reply)}
    {used : BusPlan Script → BusPlan Script} {f : Option (Hook Script Reply) → Run β}
    (hcalled : ∀ w : World, Relation.ReflTransGen R w (w.called bus o))
    (hused : ∀ plan, used plan = plan.after o)
    (hschedule : ∀ plan, (schedule plan).scripts ⊆ plan.scripts)
    (hnone : Follows R (f none))
    (hsome : ∀ hook, A.PlaysAny hook.code → Follows R (f (some hook))) :
    Follows R
      (Bus.nextHook bus schedule used >>= fun hook? => Run.record o >>= fun _ => f hook?) := by
  refine h.known fun w hw => ?_
  simp only [ensures_bind, Bus.ensures_nextHook, ensures_record, then_ok, hused]
  cases hcurrent : (schedule (w.state.buses.get bus).plan).current? with
  | none => exact after hnone (hcalled w)
  | some hook =>
      have hcode : A.PlaysAny hook.code := fun script hscript =>
        hw.plans bus script (hschedule _ (Schedule.mem_scripts hcurrent hscript))
      exact after (hsome hook hcode) (hcalled w)

/-! ## Endpoints -/

theorem createEndpoint (h : LibraryWalk R A P play) (hkind : ∀ e, P (.created e)) (bus : Key Bus)
    (descriptor : Descriptor) :
    Follows R (Endpoint.create bus descriptor) :=
  fun _ => h.step (.createEndpoint bus descriptor (hkind _))

theorem acquire (h : LibraryWalk R A P play) (e : Key Endpoint) :
    Follows R (Endpoint.acquire e) := by
  refine follows_getState_bind fun s => ?_
  split
  · exact follows_throw _
  · exact (h.modifyState fun s => .setReferences s e (· + 1) _).bind fun _ => h.record trivial

theorem free (h : LibraryWalk R A P play) (e : Key Endpoint) :
    Follows R (Endpoint.free play e) := by
  refine follows_getState_bind fun s => Follows.bind ?_ fun reply => ?_
  · refine h.called (fun _ => h.step (.call rfl (by simp))) (fun _ => rfl) ?_ (follows_pure _)
      fun hook hcode => ?_
    · exact fun plan script hscript => BusPlan.mem_scripts.mpr (.inr (.inr (.inr hscript)))
    · exact (h.run hcode).bind fun _ => follows_pure _
  · exact h.record trivial

theorem release (h : LibraryWalk R A P play) (e : Key Endpoint) :
    Follows R (Endpoint.release play e) := by
  refine follows_getState_bind fun s => ?_
  split
  · exact follows_throw _
  · refine (h.modifyState fun s => .setReferences s e (· - 1) _).bind fun _ => ?_
    refine Follows.bind (h.record trivial) fun _ => ?_
    split
    · exact h.free e
    · exact follows_pure ()

theorem releaseAll (h : LibraryWalk R A P play) (es : List (Key Endpoint)) :
    Follows R (Endpoint.releaseAll play es) := by
  induction es with
  | nil => exact follows_pure ()
  | cons e rest ih => exact (h.release e).ensuring ih

theorem setToggle (h : LibraryWalk R A P play) {e : Key Endpoint} {value : Bool}
    (hkind : P (.set e value)) :
    Follows R (Endpoint.setToggle e value) :=
  fun _ => h.step (.setToggle hkind)

theorem advanceToggle (h : LibraryWalk R A P play) {e : Key Endpoint}
    (hkind : P (.advanced e)) :
    Follows R (Endpoint.advanceToggle e) :=
  fun _ => h.step (.advanceToggle hkind)

/-! ## Tables -/

theorem createTable (h : LibraryWalk R A P play) : Follows R Table.create :=
  fun _ => h.step .addTable

/-- No account is about the locks of tables. -/
theorem locking (h : LibraryWalk R A P play) (t : Key Table) {m : Run α} (hm : Follows R m) :
    Follows R (Table.locking t m) :=
  Follows.guarding (fun lock => h.modifyState fun s => .lockTable s t lock) hm

theorem register (h : LibraryWalk R A P play) (t : Key Table) (e : Key Endpoint) :
    Follows R (Table.register play t e) := by
  refine (h.locking t (follows_getState_bind fun s => ?_)).bind fun installed => ?_
  · split
    · exact Follows.bind (h.record trivial) fun _ => follows_pure _
    · exact fun w => h.step (.install t e)
  · cases installed with
    | true => exact follows_pure _
    | false => exact (h.release e).bind fun _ => follows_pure _

theorem find (h : LibraryWalk R A P play) (t : Key Table) (target : Target) :
    Follows R (Table.find? t target) := by
  refine h.locking t (follows_getState_bind fun s => ?_)
  split
  · exact follows_pure _
  · exact (h.acquire _).bind fun _ => follows_pure _

theorem remove (h : LibraryWalk R A P play) (t : Key Table) (target : Target) :
    Follows R (Table.remove t target) := by
  refine h.locking t fun w => ?_
  simp only [ensures_bind, ensures_getState, then_ok]
  split
  · exact .refl
  · next slot e hlookup =>
      obtain ⟨s, hslot⟩ := Table.uninstall?_of_get? (Table.lookup?_eq_some hlookup).1
      unfold Table.vacate
      simp only [ensures_bind, ensures_record, ensures_getState, World.note_state, hslot,
        ensures_modifyState, then_ok, ensures_pure]
      exact h.step (.uninstall target hslot)

theorem removeDevice (h : LibraryWalk R A P play) (t : Key Table) (address : UInt8) :
    Follows R (Table.removeDevice t address) := by
  refine h.locking t fun w => ?_
  simp only [ensures_bind, ensures_getState, ensures_record, then_ok]
  refine Ensures.mono (Table.ensures_vacateEach (Slots.slotsWhere_nodup _ _)
    fun slot hslot => Table.occupied_of_mem_deviceSlots hslot) fun r w' hr => ?_
  obtain ⟨es, left, rfl, rfl, hgives⟩ := hr
  exact h.step (.uninstallDevice _ hgives)

theorem resetTable (h : LibraryWalk R A P play) {t : Key Table}
    (hkind : ∀ es, P (.reset t es)) (target : Target) (scope : ResetScope) :
    Follows R (Table.resetToggles t target scope) := by
  refine h.locking t fun w => ?_
  simp only [ensures_bind, ensures_getState, then_ok]
  apply Ensures.mono (Endpoint.ensures_resetEach_eq _ w)
  rintro r w' ⟨rfl, rfl⟩
  exact h.step (.resetToggles rfl (hkind _))

theorem tableSize (h : LibraryWalk R A P play) (t : Key Table) : Follows R (Table.size t) :=
  h.locking t (follows_getState_bind fun _ => follows_pure _)

theorem destroyTable (h : LibraryWalk R A P play) (t : Key Table) :
    Follows R (Table.destroy play t) := by
  refine follows_getState_bind fun s w => ?_
  rw [ensures_bind, ensures_record, then_ok, ensures_bind, ensures_modifyState, then_ok]
  exact after (h.releaseAll _) (h.step (.giveUpTable t))

/-! ## Queues -/

theorem createQueue (h : LibraryWalk R A P play) : Follows R Queue.create :=
  fun _ => h.step .addQueue

theorem push (h : LibraryWalk R A P play) (q : Key Queue) (c : Completion) :
    Follows R (Queue.push play q c) := by
  refine h.known fun w hw => ?_
  have harrive := h.step (w := w) (.arrive q c)
  by_cases hfree : (w.state.queues.get q).lock = .free
  · refine Queue.ensures_push_arrived hfree (fun _ => harrive) fun waker hwaker => ?_
    exact after (h.run (hw.queues q waker hwaker)) harrive
  · exact Queue.ensures_push_of_taken hfree fun _ => .refl

theorem next (h : LibraryWalk R A P play) (q : Key Queue) : Follows R (Queue.next? q) := by
  intro w
  by_cases hfree : (w.state.queues.get q).lock = .free
  · apply Ensures.mono (Queue.attempt_next? hfree)
    intro r w' hr
    cases hr with
    | found hpending => exact h.step (.hand hpending)
    | empty => exact .refl
  · exact Queue.ensures_locking_of_taken hfree fun _ => .refl

theorem queueSize (q : Key Queue) : Follows R (Queue.size q) := by
  intro w
  by_cases hfree : (w.state.queues.get q).lock = .free
  · exact Queue.ensures_size hfree .refl
  · exact Queue.ensures_locking_of_taken hfree fun _ => .refl

/-- Whoever finds a queue empty waits there. -/
theorem poll (h : LibraryWalk R A P play) (q : Key Queue) {waker : Waker}
    (hplays : A.PlaysAny waker.code) :
    Follows R (Queue.poll q waker (pure ())) := by
  intro w
  by_cases hfree : (w.state.queues.get q).lock = .free
  · apply Ensures.mono (Queue.attempt_poll hfree waker)
    intro r w' hr
    cases hr with
    | found hpending => exact h.step (.hand hpending)
    | empty hpending => exact h.step (.wait hpending hplays)
  · exact Queue.ensures_poll_of_taken hfree fun _ => .refl

/-- Whoever polls while a completion is pushed finds that completion. -/
theorem pollRacing (h : LibraryWalk R A P play) (q : Key Queue) {queue : String}
    {route : PollRoute} {pushed : Completion} (hhas : A.Has (.pollRacing queue route pushed)) :
    Follows R (Queue.poll q Session.racingWaker (Queue.push play q pushed)) := by
  intro w
  by_cases hfree : (w.state.queues.get q).lock = .free
  · by_cases hq : q.index < w.state.queues.size
    · apply Ensures.mono (Queue.attempt_poll_racing hfree hq pushed)
      intro r w' hr
      cases hr with
      | found hpending => exact h.step (.hand hpending)
      | empty hpending =>
          have hsize : q.index < (w.left q Session.racingWaker).state.queues.size := by
            simpa [World.left, State.setQueue] using hq
          have harrived : (((w.left q Session.racingWaker).arrived q pushed).state.queues.get
              q).pending = [pushed] := by
            rw [World.get_arrived hsize, w.get_left hq, hpending]
            rfl
          have hleft := h.step (w := w) (.race hhas hpending)
          exact (hleft.trans (h.step (.arrive q pushed))).trans (h.step (.hand harrived))
    · have harrive := h.step (w := w) (.arrive q pushed)
      apply Ensures.mono (Queue.attempt_poll_racing_of_size_le (Nat.not_lt.mp hq) pushed)
      intro r w' hr
      cases hr with
      | found hpending => exact harrive.trans (h.step (.hand hpending))
      | empty hpending => exact harrive.trans (h.step (.wait hpending A.playsAny_none))
  · exact Queue.ensures_poll_of_taken hfree fun _ => .refl

/-! ## Resets by way of a bus -/

theorem resetOnBus (h : LibraryWalk R A P play) (hkind : ∀ t es, P (.reset t es)) (bus : Key Bus)
    (asker : Option (Key Batch)) (target : Target) (scope : ResetScope) :
    Follows R (Bus.resetToggles play bus asker target scope) := by
  refine h.called (fun _ => h.step (.call rfl (by simp))) (fun _ => rfl) ?_ (follows_pure _)
    fun hook hcode => ?_
  · exact fun plan script hscript => BusPlan.mem_scripts.mpr (.inr (.inr (.inl hscript)))
  · obtain ⟨code, table, reply⟩ := hook
    refine follows_getState_bind fun s => ?_
    have hrun : Follows R (play.run none code) := h.run hcode
    cases table.bind s.directory.tables.find? with
    | none =>
        refine hrun.bind fun _ => ?_
        cases reply <;> exact follows_pure _
    | some t =>
        refine (h.resetTable (hkind t) target scope).bind fun count => ?_
        refine Follows.bind (h.record trivial) fun _ => hrun.bind fun _ => ?_
        cases reply <;> exact follows_pure _

/-- A batch whose transfer failed asks its bus. -/
theorem resetOfBatch (h : LibraryWalk R A P play) (hkind : ∀ t es, P (.reset t es))
    (b : Key Batch) :
    Follows R (Batch.resetToggles play b) := by
  refine follows_getState_bind fun s => ?_
  change Follows R (if (s.transferOf b).NeedsReset then _ else _)
  split
  · refine Follows.bind (h.record trivial) fun _ => ?_
    split
    · exact follows_throw _
    · refine (h.resetOnBus hkind _ _ _ _).bind fun answer? => ?_
      cases answer? <;> exact follows_pure _
  · exact follows_pure _

/-! ## Edits of batches -/

theorem allocBuffer (h : LibraryWalk R A P play) {b : Key Batch}
    (hmodify : ∀ f, Follows R (Batch.modifyTransfer b f)) (length : Nat) (granted : Bool) :
    Follows R (Batch.allocBuffer b length granted) := by
  refine follows_getState_bind fun s => ?_
  split
  · exact Follows.bind (h.record trivial) fun _ => follows_pure _
  · exact (hmodify _).bind fun _ => follows_pure _

/-! ## Handles and names -/

theorem modifyDirectory (h : LibraryWalk R A P play) {f : Directory → Directory}
    (hbatches : ∀ d, (f d).batches = d.batches) (hwakers : ∀ d, (f d).wakers = d.wakers) :
    Follows R (Session.modifyDirectory f) :=
  h.modifyState fun s =>
    .of_same rfl rfl rfl rfl rfl (hbatches s.directory) (hwakers s.directory) (Nat.le_refl _)

theorem takeHandle (h : LibraryWalk R A P play) (name : String) :
    Follows R (Session.takeHandle name) := by
  refine follows_getState_bind fun s => ?_
  dsimp only
  split
  · exact follows_pure _
  · split
    · exact follows_pure _
    · refine Follows.bind (h.modifyState fun s => ?_) fun _ => follows_pure _
      exact .of_same rfl rfl rfl rfl rfl rfl rfl (Nat.le_refl _)

theorem takeHandles (h : LibraryWalk R A P play) (names : List String)
    (taken : List (Key Endpoint)) :
    Follows R (Session.takeHandles play taken names) := by
  induction names generalizing taken with
  | nil => exact follows_pure _
  | cons name rest ih =>
      refine (h.takeHandle name).bind fun answer => ?_
      cases answer with
      | error mistake => exact (h.releaseAll taken).bind fun _ => follows_pure _
      | ok e => exact ih _

theorem keepHandle (h : LibraryWalk R A P play) (name : String) (e : Key Endpoint) :
    Follows R (Session.keepHandle play name e) := by
  refine follows_getState_bind fun s => ?_
  refine Follows.bind (h.modifyState fun s => ?_) fun _ => ?_
  · exact .of_same rfl rfl rfl rfl rfl rfl rfl (Nat.le_succ _)
  · split
    · exact follows_pure ()
    · split
      · exact follows_pure ()
      · exact h.release _

theorem keepHandles (h : LibraryWalk R A P play) (stem : String) (es : List (Key Endpoint))
    (i : Nat) :
    Follows R (Session.keepHandles play stem i es) := by
  induction es generalizing i with
  | nil => exact follows_pure ()
  | cons e rest ih =>
      refine Follows.bind ?_ fun _ => ih (i + 1)
      exact (h.keepHandle _ e).onFault (h.releaseAll rest)

theorem keepOrRelease (h : LibraryWalk R A P play) (keep : Option String) (e : Key Endpoint) :
    Follows R (Session.keepOrRelease play keep e) := by
  cases keep with
  | some name => exact h.keepHandle name e
  | none => exact h.release e

theorem lending (h : LibraryWalk R A P play) (handle : Handle) {m : Run α}
    (hm : Follows R m) :
    Follows R (Session.lending play handle m) := by
  refine Follows.bind (h.modifyDirectory (fun _ => rfl) fun _ => rfl) fun _ => hm.ensuring ?_
  refine Follows.bind (h.modifyDirectory (fun _ => rfl) fun _ => rfl) fun _ => ?_
  refine follows_getState_bind fun s => ?_
  dsimp only
  split
  · exact follows_pure ()
  · exact h.release _

theorem keepTable (h : LibraryWalk R A P play) (name : String) (t : Key Table) :
    Follows R (Session.keepTable play name t) := by
  refine follows_getState_bind fun s => ?_
  refine Follows.bind (h.modifyDirectory (fun _ => rfl) fun _ => rfl) fun _ => ?_
  split
  · exact follows_pure ()
  · exact h.destroyTable _

end LibraryWalk
end UsbTransfer
