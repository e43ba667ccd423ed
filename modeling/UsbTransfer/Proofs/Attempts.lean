import UsbTransfer.Session.Queues
import UsbTransfer.Proofs.Operations

/-!
# Arrivals and attempts

A completion arrives in a queue, and whoever waits for it is woken at once.  Whoever looks for a
completion gets the oldest one there is.  Otherwise the queue is empty, and what is left then tells
the ways of waiting apart.
-/

namespace UsbTransfer

open Run

/-! ## What becomes of a queue -/

namespace World

/-- A completion was appended to a queue. -/
def queued (w : World) (q : Key Queue) (c : Completion) : World :=
  (w.alter (·.setQueue q fun queue => { queue with pending := queue.pending ++ [c] })).noteUnder
    (.queue q) (.pushed q c)

/-- A completion arrived in a queue, and whoever waited for it was taken out and woken. -/
def arrived (w : World) (q : Key Queue) (c : Completion) : World :=
  match (w.state.queues.get q).waker with
  | none => w.queued q c
  | some waker =>
      ((w.queued q c).alter (·.setQueue q fun queue => { queue with waker := none })).note
        (.woken q waker.name)

/-- The oldest completion was taken from a queue. -/
def handed (w : World) (q : Key Queue) (c : Completion) (rest : List Completion) : World :=
  (w.alter (·.setQueue q fun queue => { queue with pending := rest })).noteUnder (.queue q)
    (.handedOut q c)

/-- A waker was left in a queue. -/
def left (w : World) (q : Key Queue) (waker : Waker) : World :=
  w.alter (·.setQueue q fun queue => { queue with waker := some waker })

variable {w : World} {q : Key Queue}

theorem left_of_size_le (hq : w.state.queues.size ≤ q.index) (waker : Waker) :
    w.left q waker = w := by
  have hqueues := w.state.queues.modify_of_size_le q
    (fun queue => { queue with waker := some waker }) hq
  simp only [left, alter, State.setQueue, hqueues]

theorem get_left (hq : q.index < w.state.queues.size) (waker : Waker) :
    (w.left q waker).state.queues.get q = { w.state.queues.get q with waker := some waker } :=
  w.state.queues.get_modify_self q _ hq

theorem get_queued (hq : q.index < w.state.queues.size) (c : Completion) :
    (w.queued q c).state.queues.get q =
      { w.state.queues.get q with pending := (w.state.queues.get q).pending ++ [c] } :=
  w.state.queues.get_modify_self q _ hq

@[simp]
theorem size_arrived (w : World) (q : Key Queue) (c : Completion) :
    (w.arrived q c).state.queues.size = w.state.queues.size := by
  unfold arrived
  split <;> simp [queued, State.setQueue]

/-- After an arrival nobody waits. -/
theorem get_arrived (hq : q.index < w.state.queues.size) (c : Completion) :
    (w.arrived q c).state.queues.get q =
      { w.state.queues.get q with
        pending := (w.state.queues.get q).pending ++ [c], waker := none } := by
  unfold arrived
  split
  · next hwaker => rw [get_queued hq, ← hwaker]
  · have hsize : q.index < (w.queued q c).state.queues.size := by
      simpa [queued, State.setQueue] using hq
    have hget := (w.queued q c).state.queues.get_modify_self q
      (fun queue => { queue with waker := none }) hsize
    rw [get_queued hq] at hget
    exact hget

end World

/-! ## Arrivals -/

namespace Queue

variable {play : Player}

/-- After the arrival of the completion only the code of the waker does anything. -/
theorem ensures_push_arrived {w : World} {q : Key Queue} {c : Completion}
    {Q : Except Fault Unit → World → Prop} (hfree : (w.state.queues.get q).lock = .free)
    (hnone : (w.state.queues.get q).waker = none → Q (.ok ()) (w.arrived q c))
    (hsome : ∀ waker, (w.state.queues.get q).waker = some waker →
      Ensures (play.run none waker.code) (w.arrived q c) Q) :
    Ensures (push play q c) w Q := by
  refine ensures_push hfree ?_
  have hkept : ((w.queued q c).state.queues.get q).waker = (w.state.queues.get q).waker :=
    w.state.queues.apply_get_modify q q
      (fun queue => { queue with pending := queue.pending ++ [c] }) Queue.waker fun _ => rfl
  unfold World.arrived at hnone hsome
  cases hwaker : (w.state.queues.get q).waker with
  | none =>
      rw [hwaker] at hnone
      exact ensures_wake_of_none (hkept.trans hwaker) (hnone rfl)
  | some waker =>
      rw [hwaker] at hsome
      exact ensures_wake_of_some (hkept.trans hwaker) (hsome waker rfl)

/-- A waker without code does nothing. -/
theorem ensures_push_of_silent {w : World} {q : Key Queue}
    (hfree : (w.state.queues.get q).lock = .free)
    (hsilent : ∀ waker, (w.state.queues.get q).waker = some waker → waker.code = none)
    (c : Completion) :
    Ensures (push play q c) w fun r w' => r = .ok () ∧ w' = w.arrived q c := by
  refine ensures_push_arrived hfree (fun _ => ⟨rfl, rfl⟩) fun waker hwaker => ?_
  rw [hsilent waker hwaker]
  exact ⟨rfl, rfl⟩

/-! ## Queues that are locked or not there -/

/-- Nobody gets past a lock that is not free. -/
theorem ensures_locking_of_taken {α : Type} {w : World} {q : Key Queue} {m : Run α}
    {Q : Except Fault α → World → Prop} (htaken : (w.state.queues.get q).lock ≠ .free)
    (hQ : ∀ fault, Q (.error fault) w) :
    Ensures (locking q m) w Q := by
  unfold locking
  apply ensures_guarding_of_taken
  · exact htaken
  · exact hQ

theorem ensures_push_of_taken {w : World} {q : Key Queue} {c : Completion}
    {Q : Except Fault Unit → World → Prop} (htaken : (w.state.queues.get q).lock ≠ .free)
    (hQ : ∀ fault, Q (.error fault) w) :
    Ensures (push play q c) w Q := by
  unfold push
  rw [ensures_bind]
  exact ensures_locking_of_taken htaken hQ

theorem ensures_poll_of_taken {w : World} {q : Key Queue} {waker : Waker} {meanwhile : Run Unit}
    {Q : Except Fault (Poll Completion) → World → Prop}
    (htaken : (w.state.queues.get q).lock ≠ .free) (hQ : ∀ fault, Q (.error fault) w) :
    Ensures (poll q waker meanwhile) w Q := by
  unfold poll
  rw [ensures_bind]
  exact ensures_locking_of_taken htaken hQ

end Queue

/-! ## Attempts -/

variable {α β : Type} {q : Key Queue} {w left : World} {found : Completion → α} {answer : α}

namespace Queue

/-- The outcome of an attempt to take a completion. -/
inductive Attempt (q : Key Queue) (w : World) (found : Completion → α) (answer : α) (left : World) :
    Except Fault α → World → Prop where
  | found {c : Completion} {rest : List Completion}
      (hpending : (w.state.queues.get q).pending = c :: rest) :
      Attempt q w found answer left (.ok (found c)) (w.handed q c rest)
  | empty (hpending : (w.state.queues.get q).pending = []) :
      Attempt q w found answer left (.ok answer) left

/-- What is made of the outcome does nothing to the world. -/
theorem attempt_bind {m : Run α} {f : α → Run β} {found' : Completion → β} {answer' : β}
    (hm : Ensures m w (Attempt q w found answer left))
    (hfound : ∀ c, f (found c) = pure (found' c)) (hanswer : f answer = pure answer') :
    Ensures (m >>= f) w (Attempt q w found' answer' left) := by
  rw [ensures_bind]
  apply Ensures.mono hm
  intro r w' hr
  cases hr with
  | found hpending =>
      rw [then_ok, hfound]
      exact .found hpending
  | empty hpending =>
      rw [then_ok, hanswer]
      exact .empty hpending

theorem attempt_next? (hfree : (w.state.queues.get q).lock = .free) :
    Ensures (next? q) w (Attempt q w some none w) := by
  cases hpending : (w.state.queues.get q).pending with
  | nil => exact ensures_next?_of_nil hfree hpending (.empty hpending)
  | cons c rest => exact ensures_next?_of_cons hfree hpending (.found hpending)

/-- Whoever finds a queue empty looks once more, when the waker was left and the rest was done. -/
theorem ensures_poll_of_nil {waker : Waker} {meanwhile : Run Unit}
    {Q : Except Fault (Poll Completion) → World → Prop}
    (hfree : (w.state.queues.get q).lock = .free) (hpending : (w.state.queues.get q).pending = [])
    (hmeanwhile : Ensures meanwhile (w.left q waker) fun r w₁ =>
      r = .ok () ∧ (w₁.state.queues.get q).lock = .free ∧
        ∀ r' w', Attempt q w₁ .ready .pending (w₁.note (.waiting q waker.name)) r' w' → Q r' w') :
    Ensures (poll q waker meanwhile) w Q := by
  unfold poll
  rw [ensures_bind]
  refine ensures_next?_of_nil hfree hpending ?_
  simp only [then_ok, ensures_bind, leave, ensures_modify]
  apply Ensures.mono hmeanwhile
  intro r w₁ hr
  obtain ⟨rfl, hfree₁, hQ⟩ := hr
  rw [then_ok, ensures_bind]
  apply Ensures.mono (attempt_next? hfree₁)
  intro r' w' hr'
  cases hr' with
  | found hfound => exact hQ _ _ (.found hfound)
  | empty hempty => exact hQ _ _ (.empty hempty)

theorem ensures_poll_of_cons {waker : Waker} {meanwhile : Run Unit} {c : Completion}
    {rest : List Completion} {Q : Except Fault (Poll Completion) → World → Prop}
    (hfree : (w.state.queues.get q).lock = .free)
    (hpending : (w.state.queues.get q).pending = c :: rest)
    (h : Q (.ok (.ready c)) (w.handed q c rest)) :
    Ensures (poll q waker meanwhile) w Q := by
  unfold poll
  rw [ensures_bind]
  exact ensures_next?_of_cons hfree hpending h

/-- What is left in a queue changes nothing else about it. -/
theorem apply_left (w : World) (q : Key Queue) (waker : Waker) {g : Queue → β}
    (hg : ∀ queue, g { queue with waker := some waker } = g queue) :
    g ((w.left q waker).state.queues.get q) = g (w.state.queues.get q) :=
  w.state.queues.apply_get_modify q q _ g hg

/-- Whoever finds a queue empty waits there. -/
theorem attempt_poll (hfree : (w.state.queues.get q).lock = .free) (waker : Waker) :
    Ensures (poll q waker (pure ())) w
      (Attempt q w .ready .pending ((w.left q waker).note (.waiting q waker.name))) := by
  cases hpending : (w.state.queues.get q).pending with
  | cons c rest => exact ensures_poll_of_cons hfree hpending (.found hpending)
  | nil =>
      refine ensures_poll_of_nil hfree hpending ⟨rfl, ?_, fun r' w' hr' => ?_⟩
      · exact (apply_left w q waker fun _ => rfl).trans hfree
      · have hstill : ((w.left q waker).state.queues.get q).pending = [] :=
          (apply_left w q waker fun _ => rfl).trans hpending
        cases hr' with
        | found hfound =>
            rw [hstill] at hfound
            cases hfound
        | empty => exact .empty hpending

/-- Whoever is about to wait while another context pushes a completion gets that completion, but
none of those that were there goes past. -/
theorem attempt_poll_racing {play : Player} (hfree : (w.state.queues.get q).lock = .free)
    (hq : q.index < w.state.queues.size) (pushed : Completion) :
    Ensures (poll q Session.racingWaker (push play q pushed)) w
      (Attempt q w .ready (.ready pushed)
        (((w.left q Session.racingWaker).arrived q pushed).handed q pushed [])) := by
  cases hpending : (w.state.queues.get q).pending with
  | cons c rest => exact ensures_poll_of_cons hfree hpending (.found hpending)
  | nil =>
      refine ensures_poll_of_nil hfree hpending ?_
      have hleft := w.get_left hq Session.racingWaker
      have hsize : q.index < (w.left q Session.racingWaker).state.queues.size := by
        simpa [World.left, State.setQueue] using hq
      have hsilent : ∀ waker, ((w.left q Session.racingWaker).state.queues.get q).waker =
          some waker → waker.code = none := by
        intro waker hwaker
        rw [hleft] at hwaker
        obtain rfl := Option.some.inj hwaker
        rfl
      have hunlocked : ((w.left q Session.racingWaker).state.queues.get q).lock = .free :=
        (apply_left w q _ fun _ => rfl).trans hfree
      apply Ensures.mono (ensures_push_of_silent hunlocked hsilent pushed)
      rintro r w₁ ⟨rfl, rfl⟩
      have harrived := World.get_arrived hsize pushed
      rw [hleft, hpending] at harrived
      refine ⟨rfl, ?_, fun r' w' hr' => ?_⟩
      · rw [harrived]
        exact hfree
      · cases hr' with
        | found hfound =>
            rw [harrived] at hfound
            obtain ⟨rfl, rfl⟩ := List.cons.inj hfound
            exact .empty hpending
        | empty hempty =>
            rw [harrived] at hempty
            cases hempty

/-- A queue that does not exist stays empty, so whoever polls it waits there for good. -/
theorem attempt_poll_racing_of_size_le {play : Player} (hq : w.state.queues.size ≤ q.index)
    (pushed : Completion) :
    Ensures (poll q Session.racingWaker (push play q pushed)) w
      (Attempt q (w.arrived q pushed) .ready .pending
        (((w.arrived q pushed).left q Session.racingWaker).note
          (.waiting q Session.racingWaker.name))) := by
  have hblank : ∀ w' : World, w'.state.queues.size ≤ q.index →
      w'.state.queues.get q = default := fun w' hq' => w'.state.queues.get_of_size_le q hq'
  have hsize : (w.arrived q pushed).state.queues.size ≤ q.index := by rwa [World.size_arrived]
  have hfree : (w.state.queues.get q).lock = .free := by
    rw [hblank w hq]
    rfl
  refine ensures_poll_of_nil hfree (by rw [hblank w hq]; rfl) ?_
  rw [World.left_of_size_le hq]
  apply Ensures.mono (ensures_push_of_silent hfree (by rw [hblank w hq]; exact nofun) pushed)
  rintro r w₁ ⟨rfl, rfl⟩
  refine ⟨rfl, ?_, ?_⟩
  · rw [hblank _ hsize]
    rfl
  · rw [World.left_of_size_le hsize]
    exact fun _ _ hr' => hr'

/-- The stream has no end. -/
theorem pollStream_ne_none (q : Key Queue) (waker : Waker) (meanwhile : Run Unit) (w : World) :
    Ensures (pollStream q waker meanwhile) w fun r _ => r ≠ .ok (.ready none) := by
  unfold pollStream
  rw [ensures_bind]
  apply Ensures.mono (ensures_worldAfter (poll q waker meanwhile) w)
  intro r _ _
  cases r with
  | error fault => simp
  | ok answer =>
      rw [then_ok, ensures_pure]
      cases answer <;> simp [Poll.map]

end Queue

/-! ## Commands -/

namespace Session

variable {play : Player} {name : String}

theorem ensures_withQueue {act : Key Queue → Run Result} {Q : Except Fault Result → World → Prop}
    (hfind : w.state.directory.queues.find? name = some q) (h : Ensures (act q) w Q) :
    Ensures (withQueue name act) w Q := by
  unfold withQueue
  simp only [ensures_bind, ensures_getState, then_ok, hfind]
  exact h

/-- What an attempt to get a completion answers. -/
def answerOf : Poll Completion → Result
  | .ready c => .ok (.completion c)
  | .pending => .ok .pending

/-- In whatever way somebody waits, it is the same attempt. -/
theorem attempt_pollOnce {waker : Waker} {meanwhile : Run Unit} {answer : Poll Completion}
    (h : Ensures (Queue.poll q waker meanwhile) w (Queue.Attempt q w .ready answer left))
    (route : PollRoute) :
    Ensures (pollOnce q route waker meanwhile) w
      (Queue.Attempt q w (fun c => .ok (.completion c)) (answerOf answer) left) := by
  cases route with
  | direct | future =>
      refine Queue.attempt_bind h (fun _ => rfl) ?_
      cases answer <;> rfl
  | stream =>
      -- an item of the stream is never its end
      refine Queue.attempt_bind (Queue.attempt_bind h (fun _ => rfl) rfl) (fun _ => rfl) ?_
      cases answer <;> rfl

theorem ensures_queueSize (hfree : (w.state.queues.get q).lock = .free)
    (hfind : w.state.directory.queues.find? name = some q) :
    Ensures (queueSize name) w fun r w' =>
      r = .ok (.ok (.size (w.state.queues.get q).pending.length)) ∧ w' = w := by
  refine ensures_withQueue hfind ?_
  rw [ensures_bind]
  exact Queue.ensures_size hfree ⟨rfl, rfl⟩

theorem attempt_tryNext (hfree : (w.state.queues.get q).lock = .free)
    (hfind : w.state.directory.queues.find? name = some q) :
    Ensures (tryNext name) w
      (Queue.Attempt q w (fun c => .ok (.completion c)) (.ok .nothing) w) :=
  ensures_withQueue hfind (Queue.attempt_bind (Queue.attempt_next? hfree) (fun _ => rfl) rfl)

theorem attempt_pollCommand {waker : String} {found : Waker}
    (hfree : (w.state.queues.get q).lock = .free)
    (hfind : w.state.directory.queues.find? name = some q)
    (hwaker : w.state.directory.wakers.find? waker = some found) (route : PollRoute) :
    Ensures (poll name route waker) w
      (Queue.Attempt q w (fun c => .ok (.completion c)) (.ok .pending)
        ((w.left q found).note (.waiting q found.name))) := by
  refine ensures_withQueue hfind ?_
  simp only [ensures_bind, ensures_getState, then_ok, hwaker]
  exact attempt_pollOnce (Queue.attempt_poll hfree found) route

theorem attempt_pollRacing (hfree : (w.state.queues.get q).lock = .free)
    (hfind : w.state.directory.queues.find? name = some q) (hq : q.index < w.state.queues.size)
    (route : PollRoute) (pushed : Completion) :
    Ensures (pollRacing play name route pushed) w
      (Queue.Attempt q w (fun c => .ok (.completion c)) (.ok (.completion pushed))
        (((w.left q racingWaker).arrived q pushed).handed q pushed [])) :=
  ensures_withQueue hfind (attempt_pollOnce (Queue.attempt_poll_racing hfree hq pushed) route)

end Session
end UsbTransfer
