import UsbTransfer.Proofs.Deliveries
import UsbTransfer.Proofs.Invocations
import UsbTransfer.Proofs.Teardown

/-!
# Queues

A queue loses no completion, doubles none and keeps their order.  Whoever looks for one gets the
oldest, in whatever way; a batch contributes one completion when it comes to invoke its handler, and
none otherwise.
-/

namespace UsbTransfer

open Run

variable {w w' : World} {q : Key Queue} {c : Completion}

/-! ## What a batch contributes -/

namespace Batch

/-- Nothing of the batch was passed on meanwhile. -/
def ContributesNothing (b : Key Batch) (w w' : World) : Prop :=
  ∃ since, w'.history = since ++ w.history ∧
    ∀ m ∈ since, m.occurrence.invocationOf? b = none

/-- The completion of the batch was passed on to the queue by the handler of that number, and
nothing else of the batch was. -/
def ContributesOnce (b : Key Batch) (n : Nat) (q : Key Queue) (c : Completion) (w w' : World) :
    Prop :=
  ∃ later before s s', w'.history =
      later ++ ⟨.pushed q c, s'⟩ :: ⟨.handlerInvoked b n none c, s⟩ :: (before ++ w.history) ∧
    ∀ m ∈ later ++ before, m.occurrence.invocationOf? b = none

variable {b : Key Batch} {n : Nat}

theorem contributesNothing_of_trace {all : List Occurrence} (h : w.Trace all w')
    (hnone : invocations b all = []) :
    ContributesNothing b w w' := by
  obtain ⟨since, hsince, rfl⟩ := h
  refine ⟨since, hsince, fun m hm => List.filterMap_eq_nil_iff.mp hnone _ ?_⟩
  exact List.mem_map_of_mem (List.mem_reverse.mpr hm)

theorem contributesOnce_of_trace {all : List Occurrence} (h : w.Trace all w')
    (hone : invocations b all = [(n, none, c)])
    (hpassed : ∀ {m earlier}, m :: earlier <:+ w'.history → ¬ m :: earlier <:+ w.history →
      m.occurrence = .handlerInvoked b n none c →
        ∃ s, ⟨.pushed q c, s⟩ :: m :: earlier <:+ w'.history) :
    ContributesOnce b n q c w w' := by
  obtain ⟨since, hsince, rfl⟩ := h
  have hsince' : since.filterMap (fun m => m.occurrence.invocationOf? b) = [(n, none, c)] := by
    rw [invocations, List.filterMap_map, List.filterMap_reverse] at hone
    exact List.reverse_eq_iff.mp hone
  obtain ⟨later, m, before, rfl, hlater, hm, hbefore⟩ := List.filterMap_eq_cons_iff.mp hsince'
  obtain ⟨o, s⟩ := m
  obtain rfl := Occurrence.invocationOf?_eq_some hm
  have hnext := List.filterMap_eq_nil_iff.mp hbefore
  rw [List.append_assoc, List.cons_append] at hsince
  obtain ⟨s', later', hlater'⟩ := hpassed ⟨later, hsince.symm⟩ (fun h => by
    have hle := h.length_le
    simp only [List.length_cons, List.length_append] at hle
    omega) rfl
  refine ⟨later', before, s, s', hlater'.symm, fun m hm => ?_⟩
  have hsame : later' ++ [⟨.pushed q c, s'⟩] = later := by
    rw [← List.append_cancel_right_eq _ (⟨.handlerInvoked b n none c, s⟩ :: (before ++ w.history)),
      ← hsince, ← hlater', List.append_assoc]
    rfl
  rcases List.mem_append.mp hm with hm | hm
  · exact hlater m (hsame ▸ List.mem_append_left _ hm)
  · exact hnext m hm

end Batch

namespace Session

open Repertoire

variable {name : String} {b : Key Batch} {handler : Handler}

/-- The queue that gets a completion is that of the registration on record. -/
theorem Reachable.passed_to_registered (h : Reachable w)
    (hhandler : (w.state.batches.get b).handler = some handler)
    (haction : handler.action = .forward q) (honce : w'.BegunOnce) (hpasses : PassesOn w w')
    {m : Moment} {earlier : List Moment} (hm : m :: earlier <:+ w'.history)
    (hnew : ¬ m :: earlier <:+ w.history)
    (ho : m.occurrence = .handlerInvoked b handler.serial none c) :
    ∃ s, ⟨.pushed q c, s⟩ :: m :: earlier <:+ w'.history := by
  obtain ⟨q', handler', s, hrecorded, hn, haction', hpushed⟩ := hpasses.passed hm hnew ho
  obtain ⟨a, ha, hattached, hsame⟩ := h.passesOn.now b handler hhandler
  obtain ⟨a', ha', hattached', hsame'⟩ := hrecorded
  have heq : a = a' := by
    refine honce.unique (hpasses.grown.subset ha) (hm.subset (List.mem_cons_of_mem m ha'))
      (i := .handler b handler.serial) ?_ ?_
    · rw [hattached]
      rfl
    · rw [hattached', hn]
      rfl
  subst heq
  obtain rfl := Option.some.inj (hsame.symm.trans hsame')
  rw [haction] at haction'
  obtain rfl := HandlerAction.forward.inj haction'
  exact ⟨s, hpushed⟩

/-- A batch that finishes passes its completion on to the queue that was registered last, unless
its bus gives up before; no other end of a batch passes anything on. -/
theorem Reachable.contributes (h : Reachable w)
    (hfind : w.state.directory.batches.find? name = some b)
    (hhandler : (w.state.batches.get b).handler = some handler)
    (haction : handler.action = .forward q) (limit : Nat) (ending : Batch.Ending) :
    Ensures (endBatch name fun b => ending.run (player limit) b) w fun _ w' =>
      (ending.Finishes → ¬ ending.Interrupted (player limit) b (w.unname name) →
        Batch.ContributesOnce b handler.serial q
          (ending.final (w.state.transferOf b)).completion w w') ∧
      (¬ ending.Finishes ∨ ending.Interrupted (player limit) b (w.unname name) →
        Batch.ContributesNothing b w w') := by
  obtain ⟨hunname, hown⟩ := h.own_unnamed hfind
  have hready := hunname.ready h.ready
  have hname : handler.name? = none := by
    simp [Handler.name?, haction]
  have hwalk := queueSteps_walk (queueSteps_player .all limit)
  have hsteps := GoesByQueueSteps.ensures (hwalk.endBatch name fun b =>
    hwalk.ending (fun _ _ => trivial) b ending) (covers_all h.ready.sound)
  rw [ensures_endBatch hfind] at hsteps ⊢
  apply Ensures.mono ((Batch.ensures_ending (player_fair limit) hready hown.loose hown.mayEnd
    ending).and hsteps)
  intro r w' hr
  obtain ⟨hcourse, hsteps⟩ := hr
  obtain ⟨all, invoked, htrace, hinvokes, hall⟩ :=
    hcourse.invocations hready.sound hown.mayEnd hown.loose hown.endpoint
  have hmoves := hunname.trans (hcourse.moves hready hown.mayEnd hown.loose)
  have honce : w'.BegunOnce := Changes.begunOnce (h.changes.trans hmoves.changes) begunOnce_empty
  have hpasses := passesOn_of_queueSteps hsteps h.passesOn
  refine ⟨fun hfinishes hreturns => ?_, fun hnone => ?_⟩
  · refine Batch.contributesOnce_of_trace htrace ?_
      (h.passed_to_registered hhandler haction honce hpasses)
    rw [hall, hinvokes.2 hreturns, if_pos hfinishes]
    simp [World.unname, State.setDirectory, State.transferOf, hhandler, hname]
  · refine Batch.contributesNothing_of_trace htrace ?_
    rw [hall]
    by_cases hinterrupted : ending.Interrupted (player limit) b (w.unname name)
    · rw [hinvokes.1 hinterrupted]
      rfl
    · rw [hinvokes.2 hinterrupted, if_neg (hnone.resolve_right hinterrupted)]
      rfl

/-! ## What a queue is asked for -/

/-- What those get who use a queue by its name. -/
structure Serves (play : Player) (name : String) (q : Key Queue) (w : World) : Prop where
  size : ∀ atHand, Ensures (carryOut play atHand (.queueSize name)) w fun r w' =>
    r = .ok (.ok (.size (w.state.queues.get q).pending.length)) ∧ w' = w
  tryNext : ∀ atHand, Ensures (carryOut play atHand (.tryNext name)) w
    (Queue.Attempt q w (fun c => .ok (.completion c)) (.ok .nothing) w)
  poll : ∀ atHand route waker found, w.state.directory.wakers.find? waker = some found →
    Ensures (carryOut play atHand (.poll name route waker)) w
      (Queue.Attempt q w (fun c => .ok (.completion c)) (.ok .pending)
        ((w.left q found).note (.waiting q found.name)))
  /-- A completion that is pushed meanwhile is not waited for. -/
  pollRacing : ∀ atHand route pushed,
    Ensures (carryOut play atHand (.pollRacing name route pushed)) w
    (Queue.Attempt q w (fun c => .ok (.completion c)) (.ok (.completion pushed))
      (((w.left q racingWaker).arrived q pushed).handed q pushed []))
  /-- A completion is in its place whatever comes of waking those who wait for it. -/
  push : ∀ atHand pushed, Ensures (carryOut play atHand (.push name pushed)) w fun _ w' =>
    (w.arrived q pushed).history <:+ w'.history

theorem Reachable.serves (h : Reachable w) {name : String}
    (hfind : w.state.directory.queues.find? name = some q) (limit : Nat) :
    Serves (player limit) name q w := by
  have hsound := h.ready.sound
  have hfree := hsound.queuesFree q
  have hq := hsound.queuesExist q (Names.mem_values_of_find? hfind)
  refine ⟨fun _ => ensures_queueSize hfree hfind, fun _ => attempt_tryNext hfree hfind,
    fun _ route waker found hwaker => attempt_pollCommand hfree hfind hwaker route,
    fun _ route pushed => attempt_pollRacing hfree hfind hq route pushed, fun _ pushed => ?_⟩
  have hpush : Ensures (Queue.push (player limit) q pushed) w fun _ w' =>
      (w.arrived q pushed).history <:+ w'.history := by
    refine Queue.ensures_push_arrived hfree (fun _ => List.suffix_refl _) fun waker _ => ?_
    have hrun : GoesByQueueSteps .all ((player limit).run none waker.code) :=
      (queueSteps_player .all limit).run none fun _ _ _ _ => trivial
    exact Ensures.mono (hrun.ensures (Covers.arrived (covers_all hsound) q pushed))
      fun _ _ hr => suffix_of_queueSteps hr
  refine ensures_withQueue hfind ?_
  rw [ensures_bind]
  apply Ensures.mono hpush
  intro r w' hsuffix
  cases r with
  | ok _ => exact hsuffix
  | error fault => exact hsuffix

/-! ## All of it -/

/-- In whatever world user code finds itself: of every queue, what was handed out and what is
still there, in this order, is what was pushed, and so it was at every moment.  Handlers pass
completions on in the order in which they are invoked, and none does it twice or after it was
replaced.  Whoever looks for a completion gets the oldest one, a batch contributes one completion
or none, and no stream of completions ends. -/
theorem Reachable.queues_faithful (h : Reachable w) :
    w.Faithful ∧ w.Delivered ∧
      (∀ (limit : Nat) (name : String) (q : Key Queue),
        w.state.directory.queues.find? name = some q → Serves (player limit) name q w) ∧
      (∀ (limit : Nat) (ending : Batch.Ending) (name : String) (b : Key Batch) (handler : Handler)
        (q : Key Queue), w.state.directory.batches.find? name = some b →
          (w.state.batches.get b).handler = some handler → handler.action = .forward q →
            Ensures (endBatch name fun b => ending.run (player limit) b) w fun _ w' =>
              (ending.Finishes → ¬ ending.Interrupted (player limit) b (w.unname name) →
                Batch.ContributesOnce b handler.serial q
                  (ending.final (w.state.transferOf b)).completion w w') ∧
              (¬ ending.Finishes ∨ ending.Interrupted (player limit) b (w.unname name) →
                Batch.ContributesNothing b w w')) ∧
      ∀ (q : Key Queue) (waker : Waker) (meanwhile : Run Unit),
        Ensures (Queue.pollStream q waker meanwhile) w fun r _ => r ≠ .ok (.ready none) := by
  refine ⟨h.changes.faithful, h.delivered, fun limit name q hfind => h.serves hfind limit, ?_,
    fun q waker meanwhile => Queue.pollStream_ne_none q waker meanwhile w⟩
  intro limit ending name b handler q hfind hhandler haction
  exact h.contributes hfind hhandler haction limit ending

/-- A batch finishes while the bus of another one resets toggles for that, and the completions are
asked for after that. -/
theorem queues_faithful_nested :
    ∃ w, Reachable w ∧ (pushedTo ⟨0⟩ w.history).length = 2 ∧
      ((w.state.queues.get ⟨0⟩).pending).length = 1 ∧ w.Faithful ∧ w.Delivered := by
  have hreachable : Reachable (after 2
      [.addBus "hub" { BusPlan.bare Script with
          toggleReset := ⟨[⟨some [.finish "inner"], ⟨none, .done⟩⟩]⟩ },
        .addEndpoint "hub" default "pipe", .newBatch "pipe" "outer", .newBatch "pipe" "inner",
        .addQueue "queue", .toQueue "outer" "queue", .toQueue "inner" "queue",
        .setScope "outer" .endpoint, .complete "outer" (.failed .stall) 0, .finish "outer",
        .tryNext "queue"]) :=
    .idle (idle_after 2 _)
  exact ⟨_, hreachable, by decide, by decide, hreachable.queues_faithful.1,
    hreachable.queues_faithful.2.1⟩

end Session
end UsbTransfer
