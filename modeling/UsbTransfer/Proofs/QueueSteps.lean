import UsbTransfer.Proofs.Walks.Sessions

/-!
# Steps of queues

A finer reading of what an operation does, for all that concerns queues and the handlers that pass
completions on to them.  Some things always happen together, and one step takes them together: a
completion arrives and wakes whoever waits for it, a handler is invoked and passes the completion
on, a waker is left and the poll is over.  Nothing else comes between them.  What has nothing to
do with queues and such handlers is passed over.
-/

namespace UsbTransfer

open Run

/-- The occurrence is neither about a queue nor about what a handler passes on. -/
def Occurrence.Plain : Occurrence → Prop
  | .pushed _ _ | .handedOut _ _ | .waiting _ _ | .woken _ _ | .handlerAttached _ _
  | .handlerInvoked _ _ none _ => False
  | _ => True

namespace Repertoire

/-- Queues are as they were, no handler came into being, and neither did a script that does not
belong to the repertoire. -/
structure Steady (A : Repertoire) (s s' : State) : Prop where
  queues : ∀ q, s'.queues.get q = s.queues.get q
  handlers : ∀ b handler, (s'.batches.get b).handler = some handler →
    (s.batches.get b).handler = some handler
  plans : ∀ bus, ∀ script ∈ (s'.buses.get bus).plan.scripts,
    script ∈ (s.buses.get bus).plan.scripts ∨ A.Plays script
  wakers : ∀ waker ∈ s'.directory.wakers.values,
    waker ∈ s.directory.wakers.values ∨ A.PlaysAny waker.code

/-- What is done at once in a session with commands of a repertoire. -/
inductive QueueStep (A : Repertoire) (w : World) : World → Prop where
  | alter {f : State → State} (hsteady : A.Steady w.state (f w.state)) : QueueStep A w (w.alter f)
  | note {o : Occurrence} (hplain : o.Plain) : QueueStep A w (w.note o)
  | attach (b : Key Batch) {action : HandlerAction} (captured : List (Key Endpoint)) (noisy : Bool)
      (hplays : A.PlaysAny action.code?) :
      QueueStep A w
        ((w.alter (·.attachHandler b action captured noisy)).note
          (.handlerAttached b w.state.serial))
  | arrive (q : Key Queue) (c : Completion) : QueueStep A w (w.arrived q c)
  /-- The handler of a batch is invoked and passes the completion on. -/
  | pass {b : Key Batch} {handler : Handler} {q : Key Queue} (c : Completion) {f : State → State}
      (hhandler : (w.state.batches.get b).handler = some handler)
      (haction : handler.action = .forward q) (hsteady : A.Steady w.state (f w.state)) :
      QueueStep A w (((w.alter f).note (.handlerInvoked b handler.serial none c)).arrived q c)
  | hand {q : Key Queue} {c : Completion} {rest : List Completion}
      (hpending : (w.state.queues.get q).pending = c :: rest) :
      QueueStep A w (w.handed q c rest)
  /-- A waker waits in a queue that was found empty. -/
  | wait {q : Key Queue} {waker : Waker} (hpending : (w.state.queues.get q).pending = [])
      (hplays : A.PlaysAny waker.code) :
      QueueStep A w ((w.left q waker).note (.waiting q waker.name))
  /-- A waker is left while another context pushes a completion. -/
  | race {q : Key Queue} {queue : String} {route : PollRoute} {pushed : Completion}
      (hhas : A.Has (.pollRacing queue route pushed))
      (hpending : (w.state.queues.get q).pending = []) :
      QueueStep A w (w.left q Session.racingWaker)

variable {A : Repertoire} {s s' : State} {w w' : World} {b : Key Batch}

/-! ## What is covered -/

theorem Steady.covers (h : A.Steady s s') (hs : A.Covers s) : A.Covers s' where
  plans := fun bus script hscript => (h.plans bus script hscript).elim (hs.plans bus script) id
  handlers := fun b handler hhandler => hs.handlers b handler (h.handlers b handler hhandler)
  queues := fun q waker hwaker => hs.queues q waker (h.queues q ▸ hwaker)
  wakers := fun waker hwaker => (h.wakers waker hwaker).elim (hs.wakers waker) id
  unlocked := fun q => h.queues q ▸ hs.unlocked q

theorem Covers.setQueue (hs : A.Covers s) (q : Key Queue) {f : Queue → Queue}
    (hlock : ∀ queue, (f queue).lock = queue.lock)
    (hwaker : ∀ queue waker, (f queue).waker = some waker →
      queue.waker = some waker ∨ A.PlaysAny waker.code) :
    A.Covers (s.setQueue q f) where
  plans := hs.plans
  handlers := hs.handlers
  queues := by
    intro q' waker h
    simp only [State.setQueue, Arena.get_modify] at h
    split at h
    · exact (hwaker _ waker h).elim (hs.queues q waker) id
    · exact hs.queues q' waker h
  wakers := hs.wakers
  unlocked := fun q' => (s.queues.apply_get_modify q q' f Queue.lock hlock).trans (hs.unlocked q')

theorem Covers.queued (hw : A.Covers w.state) (q : Key Queue) (c : Completion) :
    A.Covers (w.queued q c).state :=
  hw.setQueue q (fun _ => rfl) fun _ _ => .inl

theorem Covers.arrived (hw : A.Covers w.state) (q : Key Queue) (c : Completion) :
    A.Covers (w.arrived q c).state := by
  unfold World.arrived
  split
  · exact hw.queued q c
  · refine (hw.queued q c).setQueue q (fun _ => rfl) fun queue waker h => ?_
    cases h

theorem Covers.attachHandler (hs : A.Covers s) (b : Key Batch) {action : HandlerAction}
    (captured : List (Key Endpoint)) (noisy : Bool) (hplays : A.PlaysAny action.code?) :
    A.Covers (s.attachHandler b action captured noisy) where
  plans := hs.plans
  handlers := by
    intro b' handler h
    simp only [State.attachHandler, Arena.get_modify] at h
    split at h
    · obtain rfl := Option.some.inj h
      exact hplays
    · exact hs.handlers b' handler h
  queues := hs.queues
  wakers := hs.wakers
  unlocked := hs.unlocked

theorem QueueStep.covers (h : A.QueueStep w w') (hw : A.Covers w.state) : A.Covers w'.state := by
  cases h with
  | alter hsteady => exact hsteady.covers hw
  | note => exact hw
  | attach b captured noisy hplays => exact hw.attachHandler b captured noisy hplays
  | arrive q c => exact hw.arrived q c
  | pass c hhandler haction hsteady => exact Covers.arrived (hsteady.covers hw) _ c
  | hand => exact hw.setQueue _ (fun _ => rfl) fun _ _ => .inl
  | wait hpending hplays =>
      refine hw.setQueue _ (fun _ => rfl) fun queue waker h => .inr ?_
      obtain rfl := Option.some.inj h
      exact hplays
  | race =>
      refine hw.setQueue _ (fun _ => rfl) fun queue waker h => .inr ?_
      obtain rfl := Option.some.inj h
      exact A.playsAny_none

/-! ## Changes that queues and handlers do not notice -/

namespace Steady

/-- Neither queues nor batches nor buses nor wakers are changed. -/
theorem of_same (hqueues : s'.queues = s.queues) (hbatches : s'.batches = s.batches)
    (hbuses : s'.buses = s.buses) (hwakers : s'.directory.wakers = s.directory.wakers) :
    A.Steady s s' where
  queues := fun q => by rw [hqueues]
  handlers := fun b handler h => by rwa [hbatches] at h
  plans := fun bus script h => .inl (by rwa [hbuses] at h)
  wakers := fun waker h => .inl (by rwa [hwakers] at h)

/-- A batch is changed that gets no handler by that. -/
theorem of_batch {f : Batch → Batch} (hqueues : s'.queues = s.queues)
    (hbatches : s'.batches = s.batches.modify b f) (hbuses : s'.buses = s.buses)
    (hwakers : s'.directory.wakers = s.directory.wakers)
    (hf : ∀ batch handler, (f batch).handler = some handler → batch.handler = some handler) :
    A.Steady s s' where
  queues := fun q => by rw [hqueues]
  handlers := by
    intro b' handler h
    rw [hbatches, Arena.get_modify] at h
    split at h
    · next heq => exact heq.1 ▸ hf _ handler h
    · exact h
  plans := fun bus script h => .inl (by rwa [hbuses] at h)
  wakers := fun waker h => .inl (by rwa [hwakers] at h)

theorem setPlan (s : State) (bus : Key Bus) {plan : BusPlan Script}
    (hplan : ∀ script ∈ plan.scripts,
      script ∈ (s.buses.get bus).plan.scripts ∨ A.Plays script) :
    A.Steady s (s.setPlan bus plan) where
  queues := fun _ => rfl
  handlers := fun _ _ h => h
  plans := by
    intro bus' script h
    simp only [State.setPlan, Arena.get_modify] at h
    split at h
    · next heq => exact heq.1 ▸ hplan script h
    · exact .inl h
  wakers := fun _ h => .inl h

end Steady

/-! ## The steps of the library and of batches -/

theorem plain_of_incidental {o : Occurrence} (h : o.Incidental) : o.Plain := by
  cases o <;> trivial

theorem plain_of_asked {o : Occurrence} {bus : Key Bus} (h : o.asked? = some bus) : o.Plain := by
  cases o <;> trivial

theorem scripts_after_subset (plan : BusPlan Script) (o : Occurrence) :
    (plan.after o).scripts ⊆ plan.scripts := by
  have hsame : ∀ {Reply : Type} (s : Schedule (Hook Script Reply)), s.scripts ⊆ s.scripts :=
    fun s => List.Subset.refl s.scripts
  cases o with
  | batchRequested | batchFarewell | resetRequested | endpointFarewell =>
      refine BusPlan.scripts_subset ?_ ?_ ?_ ?_ <;>
        first | exact hsame _ | exact Schedule.scripts_advance_subset _
  | _ => exact List.Subset.refl _

namespace QueueStep

/-- What neither queues nor batches nor buses nor wakers notice is passed over. -/
theorem aside {f : State → State} (hqueues : (f w.state).queues = w.state.queues)
    (hbatches : (f w.state).batches = w.state.batches) (hbuses : (f w.state).buses = w.state.buses)
    (hwakers : (f w.state).directory.wakers = w.state.directory.wakers) :
    A.QueueStep w (w.alter f) :=
  .alter (.of_same hqueues hbatches hbuses hwakers)

theorem aside_noted {f : State → State} {o : Occurrence} (hsteady : A.Steady w.state (f w.state))
    (hplain : o.Plain) :
    Relation.ReflTransGen A.QueueStep w ((w.alter f).note o) :=
  .head (.alter hsteady) (.single (.note hplain))

theorem noted_aside {f : State → State} {o : Occurrence} (hplain : o.Plain)
    (hsteady : A.Steady w.state (f w.state)) :
    Relation.ReflTransGen A.QueueStep w ((w.note o).alter f) :=
  .head (.note hplain) (.single (.alter hsteady))

theorem called {bus : Key Bus} {o : Occurrence} (hasked : o.asked? = some bus) :
    Relation.ReflTransGen A.QueueStep w (w.called bus o) := by
  refine aside_noted (.setPlan _ _ fun script hscript => .inl ?_) (plain_of_asked hasked)
  exact scripts_after_subset _ _ hscript

theorem of_libraryStep {P : ToggleEvent → Prop} (h : LibraryStep A P w w') :
    Relation.ReflTransGen A.QueueStep w w' := by
  cases h with
  | aside haside => exact .single (.aside haside.queues haside.batches haside.buses haside.wakers)
  | note hincidental => exact .single (.note (plain_of_incidental hincidental))
  | createEndpoint | setToggle | advanceToggle =>
      exact aside_noted (.of_same rfl rfl rfl rfl) trivial
  | resetToggles =>
      exact .tail (steps_resetEach (fun _ _ => aside_noted (.of_same rfl rfl rfl rfl) trivial) _)
        (.note trivial)
  | call hasked => exact called hasked
  | addBus name hplays =>
      refine .single (.alter ⟨fun _ => rfl, fun _ _ h => h, fun bus script h => ?_, fun _ => .inl⟩)
      rw [Arena.get_push] at h
      split at h
      · exact .inr (hplays script h)
      · exact .inl h
  | addTable => exact .single (.aside rfl rfl rfl rfl)
  | install | uninstallDevice | giveUpTable =>
      exact noted_aside trivial (.of_same rfl rfl rfl rfl)
  | uninstall target hslot =>
      obtain ⟨_, -, rfl⟩ := State.uninstall?_eq_some hslot
      exact noted_aside trivial (.of_same rfl rfl rfl rfl)
  | addQueue =>
      refine .single (.alter ⟨fun q => ?_, fun _ _ h => h, fun _ _ => .inl, fun _ => .inl⟩)
      -- a queue that does not exist yet is blank, and so is a new one
      rw [Arena.get_push]
      split
      · next heq => rw [heq, Arena.get_nextKey]
      · rfl
  | arrive q c => exact .single (.arrive q c)
  | hand hpending => exact .single (.hand hpending)
  | wait hpending hplays => exact .single (.wait hpending hplays)
  | race hhas hpending => exact .single (.race hhas hpending)
  | addWaker name hplays =>
      refine .single (.alter ⟨fun _ => rfl, fun _ _ h => h, fun _ _ => .inl, fun waker h => ?_⟩)
      rcases List.mem_cons.mp (Names.values_insert_subset _ _ _ h) with rfl | hold
      · exact .inr hplays
      · exact .inl hold

/-- A queue that handlers pass completions on to is never found locked. -/
theorem of_batchStep (h : BatchStep A w w') (hw : A.Covers w.state) :
    Relation.ReflTransGen A.QueueStep w w' := by
  cases h with
  | rename => exact .single (.aside rfl rfl rfl rfl)
  | edit => exact .single (.alter (.of_batch rfl rfl rfl rfl fun _ _ h => h))
  | farewell => exact called rfl
  | giveUp =>
      exact aside_noted (.of_batch rfl rfl rfl rfl fun _ _ h => h) trivial
  | detach => exact .single (.alter (.of_batch rfl rfl rfl rfl (by simp)))
  | attach b captured noisy hplays => exact .single (.attach b captured noisy hplays)
  | invoke | perish | finish => exact .single (.note trivial)
  | pass t c hhandler haction =>
      refine .single (.pass c hhandler haction ?_)
      exact .of_batch rfl (Arena.modify_modify _ _ _ _) rfl rfl (by simp)
  | stick b n c htaken => exact absurd (hw.unlocked _) htaken

theorem of_built {e : Key Endpoint} : Relation.ReflTransGen A.QueueStep w (w.built e) := by
  refine aside_noted ⟨fun _ => rfl, fun b handler h => ?_, fun _ _ => .inl, fun _ => .inl⟩ trivial
  simp only [State.addBatch, Arena.get_push] at h
  split at h
  · cases h
  · exact h

theorem of_dataStep (h : DataStep b w w') : Relation.ReflTransGen A.QueueStep w w' := by
  cases h with
  | detach | attach | replace =>
      exact .single (.alter (.of_batch rfl rfl rfl rfl fun _ _ h => h))
  | noteAttached | noteTaken | noteDestroyed => exact .single (.note trivial)

end QueueStep

/-! ## Operations -/

/-- Whatever its outcome is, the operation goes by such steps, from worlds that are covered. -/
abbrev GoesByQueueSteps {α : Type} (A : Repertoire) (m : Run α) : Prop :=
  Follows (StepsFrom (fun w => A.Covers w.state) A.QueueStep) m

theorem GoesByQueueSteps.ensures {α : Type} {m : Run α} (h : A.GoesByQueueSteps m)
    (hw : A.Covers w.state) :
    Ensures m w fun _ w' => Relation.ReflTransGen A.QueueStep w w' :=
  Follows.ensures_from h (fun _ _ => QueueStep.covers) hw

variable {play : Player}

/-- Who plays by such steps has all things done by them. -/
theorem queueSteps_walk
    (hplay : play.GoesBy (StepsFrom (fun w => A.Covers w.state) A.QueueStep) A) :
    SessionWalk (StepsFrom (fun w => A.Covers w.state) A.QueueStep) A AnyToggleEvent play :=
  BatchWalk.session
    { step := fun h => .single fun _ => QueueStep.of_libraryStep h
      known := fun h => follows_from fun w hw =>
        Ensures.mono (h w hw.toKnows) fun _ _ hr =>
          StepsFrom.of_all hr (fun _ _ => QueueStep.covers) hw
      run := hplay.run none
      batchStep := fun h => .single fun hw => QueueStep.of_batchStep h hw
      runHaving := hplay.run _ }
    (.single fun _ => QueueStep.of_built) fun h => .single fun _ => QueueStep.of_dataStep h

/-- However many scripts may run inside each other, they are played by such steps. -/
theorem queueSteps_player (A : Repertoire) (limit : Nat) :
    (Session.player limit).GoesBy (StepsFrom (fun w => A.Covers w.state) A.QueueStep) A :=
  Session.player_goesBy (fun _ => queueSteps_walk) limit

end Repertoire

/-- Sessions go by such steps. -/
theorem Session.IdleWith.queueSteps {A : Repertoire} {w : World} (h : IdleWith A w) :
    Relation.ReflTransGen A.QueueStep .empty w :=
  StepsFrom.of_all (h.follows fun _ => Repertoire.queueSteps_walk)
    (fun _ _ => Repertoire.QueueStep.covers) A.covers_empty

end UsbTransfer
