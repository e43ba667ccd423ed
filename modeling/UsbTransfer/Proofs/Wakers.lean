import UsbTransfer.Proofs.Deliveries

/-!
# Wakers

Who waits in a queue is woken by the next completion that is pushed there, when it is in place, and
then waits no more.  A queue has room for one waker, and so whoever waited last is woken.  This
holds in sessions that one context carries out alone, whatever the wakers do.
-/

namespace UsbTransfer

open Run

variable {A : Repertoire} {w w' : World} {m : Moment} {earlier between : List Moment}
  {q : Key Queue} {c : Completion}

/-! ## Who is awaited -/

/-- The occurrence is neither that somebody waits in the queue nor that a completion is pushed
there. -/
def Occurrence.Aside (q : Key Queue) (o : Occurrence) : Prop :=
  (∀ name, o ≠ .waiting q name) ∧ ∀ c, o ≠ .pushed q c

/-- Who waits in a queue, as far as a history tells: whoever was left there last, unless a
completion was pushed since. -/
def awaited (q : Key Queue) : List Moment → Option Waker
  | [] => none
  | m :: earlier =>
      match m.occurrence with
      | .waiting q' _ => if q' = q then (m.state.queues.get q).waker else awaited q earlier
      | .pushed q' _ => if q' = q then none else awaited q earlier
      | _ => awaited q earlier

theorem awaited_cons_of_aside (h : m.occurrence.Aside q) :
    awaited q (m :: earlier) = awaited q earlier := by
  obtain ⟨o, s⟩ := m
  cases o with
  | waiting q' name =>
      have hne : q' ≠ q := fun heq => h.1 name (heq ▸ rfl)
      simp [awaited, hne]
  | pushed q' c =>
      have hne : q' ≠ q := fun heq => h.2 c (heq ▸ rfl)
      simp [awaited, hne]
  | _ => rfl

theorem awaited_cons_of_waiting {name : String} (h : m.occurrence = .waiting q name) :
    awaited q (m :: earlier) = (m.state.queues.get q).waker := by
  simp [awaited, h]

theorem awaited_cons_of_pushed (h : m.occurrence = .pushed q c) :
    awaited q (m :: earlier) = none := by
  simp [awaited, h]

theorem awaited_append (h : ∀ m ∈ between, m.occurrence.Aside q) :
    awaited q (between ++ earlier) = awaited q earlier := by
  induction between with
  | nil => rfl
  | cons m between ih =>
      rw [List.cons_append, awaited_cons_of_aside (h m List.mem_cons_self)]
      exact ih fun m' hm' => h m' (List.mem_cons_of_mem m hm')

/-- At the end of the part of the history the waker was left in the queue, and since then nothing
was pushed there and nobody else was left there. -/
def Waits (q : Key Queue) (waker : Waker) (part history : List Moment) : Prop :=
  ∃ between m earlier, part = m :: earlier ∧ history = between ++ part ∧
    m.occurrence = .waiting q waker.name ∧ (m.state.queues.get q).waker = some waker ∧
      ∀ m' ∈ between, m'.occurrence.Aside q

theorem Waits.awaited_eq {part history : List Moment} {waker : Waker}
    (h : Waits q waker part history) :
    awaited q history = some waker := by
  obtain ⟨between, m, earlier, rfl, rfl, ho, hwaker, hbetween⟩ := h
  rw [awaited_append hbetween, awaited_cons_of_waiting ho]
  exact hwaker

theorem waits_of_awaited {history : List Moment} {waker : Waker}
    (hnames : ∀ m ∈ history, ∀ name waker, m.occurrence = .waiting q name →
      (m.state.queues.get q).waker = some waker → waker.name = name)
    (h : awaited q history = some waker) :
    ∃ part, Waits q waker part history := by
  induction history with
  | nil => cases h
  | cons m earlier ih =>
      by_cases haside : m.occurrence.Aside q
      · rw [awaited_cons_of_aside haside] at h
        obtain ⟨part, between, m', earlier', hpart, rfl, ho, hwaker, hbetween⟩ :=
          ih (fun m' hm' => hnames m' (List.mem_cons_of_mem m hm')) h
        exact ⟨part, m :: between, m', earlier', hpart, rfl, ho, hwaker,
          List.forall_mem_cons.mpr ⟨haside, hbetween⟩⟩
      · by_cases hpushed : ∃ c, m.occurrence = .pushed q c
        · obtain ⟨c, ho⟩ := hpushed
          rw [awaited_cons_of_pushed ho] at h
          cases h
        · simp only [Occurrence.Aside, not_and_or, not_forall, not_not] at haside
          obtain ⟨name, ho⟩ := haside.resolve_right hpushed
          rw [awaited_cons_of_waiting ho] at h
          obtain rfl := hnames m List.mem_cons_self name waker ho h
          exact ⟨m :: earlier, [], m, earlier, rfl, rfl, ho, h, by simp⟩

/-- Nothing was pushed between a waker and the completion that it is for. -/
theorem not_suffix_of_waits {waker waker' : Waker} {part earlier' : List Moment}
    (hpushed : m.occurrence = .pushed q c) (hwaits : Waits q waker part earlier)
    (hwaits' : Waits q waker' part earlier') :
    ¬ m :: earlier <:+ earlier' := by
  obtain ⟨between, -, -, -, rfl, -⟩ := hwaits
  obtain ⟨between', -, -, -, rfl, -, -, hbetween'⟩ := hwaits'
  rintro ⟨later, hlater⟩
  have hsplit : later ++ m :: between = between' := by
    rw [← List.append_cancel_right_eq _ part, ← hlater]
    simp
  exact (hbetween' m (hsplit ▸ by simp)).2 c hpushed

/-- A completion that is pushed after somebody was left in the queue is the first one only once. -/
theorem first_unique {waker waker' : Waker} {part earlier' whole : List Moment} {m' : Moment}
    {c' : Completion} (hm : m :: earlier <:+ whole) (hm' : m' :: earlier' <:+ whole)
    (hpushed : m.occurrence = .pushed q c) (hpushed' : m'.occurrence = .pushed q c')
    (hwaits : Waits q waker part earlier) (hwaits' : Waits q waker' part earlier') :
    m :: earlier = m' :: earlier' := by
  rcases List.suffix_or_suffix_of_suffix hm hm' with hinside | hinside
  · exact (List.suffix_cons_iff.mp hinside).resolve_right
      (not_suffix_of_waits hpushed hwaits hwaits')
  · exact ((List.suffix_cons_iff.mp hinside).resolve_right
      (not_suffix_of_waits hpushed' hwaits' hwaits)).symm

/-! ## GoesByQueueSteps -/

/-- Who waits in a queue by the history waits there, and the queue is empty then. -/
def State.Settled (s : State) (history : List Moment) : Prop :=
  ∀ q, awaited q history = (s.queues.get q).waker ∧
    ((s.queues.get q).waker.isSome → (s.queues.get q).pending = [])

theorem State.Settled.of_queues {s s' : State} {history : List Moment} (h : s.Settled history)
    (hqueues : ∀ q, s'.queues.get q = s.queues.get q) :
    s'.Settled history := by
  intro q
  rw [hqueues]
  exact h q

theorem State.Settled.cons {s s' : State} {o : Occurrence} {history : List Moment}
    (h : s.Settled history) (ho : ∀ q, o.Aside q) :
    s.Settled (⟨o, s'⟩ :: history) := by
  intro q
  rw [awaited_cons_of_aside (ho q)]
  exact h q

namespace World

theorem get_arrived_of_ne {q' : Key Queue} (h : q' ≠ q) (w : World) (c : Completion) :
    (w.arrived q c).state.queues.get q' = w.state.queues.get q' := by
  unfold arrived
  split
  · exact w.state.queues.get_modify_of_ne _ h
  · exact ((w.queued q c).state.queues.get_modify_of_ne _ h).trans
      (w.state.queues.get_modify_of_ne _ h)

theorem waker_arrived (w : World) (q : Key Queue) (c : Completion) :
    ((w.arrived q c).state.queues.get q).waker = none := by
  by_cases hq : q.index < w.state.queues.size
  · rw [get_arrived hq]
  · rw [Arena.get_of_size_le _ _ (by rw [size_arrived]; exact Nat.not_lt.mp hq)]
    rfl

theorem awaited_arrived (w : World) (q q' : Key Queue) (c : Completion) :
    awaited q' (w.arrived q c).history = if q' = q then none else awaited q' w.history := by
  have hqueued : awaited q' (w.queued q c).history =
      if q' = q then none else awaited q' w.history := by
    split
    · next heq =>
        subst heq
        exact awaited_cons_of_pushed rfl
    · next hne => exact awaited_cons_of_aside ⟨by simp, by simp [Ne.symm hne]⟩
  unfold arrived
  split
  · exact hqueued
  · exact (awaited_cons_of_aside ⟨by simp, by simp⟩).trans hqueued

/-- After an arrival nobody waits in the queue any more. -/
theorem settled_arrived (h : w.state.Settled w.history) (q : Key Queue) (c : Completion) :
    (w.arrived q c).state.Settled (w.arrived q c).history := by
  intro q'
  rw [awaited_arrived]
  split
  · next heq =>
      subst heq
      rw [waker_arrived]
      exact ⟨rfl, by simp⟩
  · next hne =>
      rw [get_arrived_of_ne hne]
      exact h q'

/-- What a moment of a history has to do with those who wait. -/
structure Attended (w : World) (m : Moment) (earlier : List Moment) : Prop where
  named : ∀ {q name waker}, m.occurrence = .waiting q name →
    (m.state.queues.get q).waker = some waker → waker.name = name
  settled : m.occurrence.Yields → m.state.Settled (m :: earlier)
  woken : ∀ {q c waker}, m.occurrence = .pushed q c → awaited q earlier = some waker →
    ∃ s, ⟨.woken q waker.name, s⟩ :: m :: earlier <:+ w.history ∧
      (s.queues.get q).pending = [c] ∧ (s.queues.get q).waker = none
  only : ∀ {q name}, m.occurrence = .woken q name →
    ∃ m' earlier' c waker, earlier = m' :: earlier' ∧ m'.occurrence = .pushed q c ∧
      awaited q earlier' = some waker ∧ waker.name = name

theorem Attended.mono (h : w.Attended m earlier) (hgrown : w.history <:+ w'.history) :
    w'.Attended m earlier where
  named := h.named
  settled := h.settled
  woken := by
    intro q c waker ho hwaker
    obtain ⟨s, hs, hqueue⟩ := h.woken ho hwaker
    exact ⟨s, hs.trans hgrown, hqueue⟩
  only := h.only

/-- Those who wait in queues are attended to. -/
structure Attends (w : World) : Prop where
  now : w.state.Settled w.history
  whenever : ∀ {m earlier}, m :: earlier <:+ w.history → w.Attended m earlier

theorem attends_empty : World.empty.Attends where
  now := fun _ => ⟨rfl, fun _ => rfl⟩
  whenever := fun hm => absurd (List.suffix_nil.mp hm) (List.cons_ne_nil _ _)

theorem Attends.alter {f : State → State} (h : w.Attends)
    (hqueues : ∀ q, (f w.state).queues.get q = w.state.queues.get q) :
    (w.alter f).Attends :=
  ⟨h.now.of_queues hqueues, fun hm => (h.whenever hm).mono List.suffix_rfl⟩

/-- Something else than a push or a wake is recorded. -/
theorem Attends.recorded {s s' : State} {o : Occurrence} (h : w.Attends)
    (hpushed : ∀ q c, o ≠ .pushed q c) (hwoken : ∀ q name, o ≠ .woken q name)
    (hnamed : ∀ q name waker, o = .waiting q name → (s'.queues.get q).waker = some waker →
      waker.name = name)
    (hsettled : s.Settled (⟨o, s'⟩ :: w.history)) (hyields : o.Yields → s' = s) :
    World.Attends ⟨s, ⟨o, s'⟩ :: w.history⟩ where
  now := hsettled
  whenever := by
    intro m earlier hm
    rcases List.suffix_cons_iff.mp hm with heq | hm
    · obtain ⟨rfl, rfl⟩ := List.cons.inj heq
      refine ⟨hnamed _ _ _, fun ho => ?_, fun ho => absurd ho (hpushed _ _),
        fun ho => absurd ho (hwoken _ _)⟩
      rw [hyields ho] at hsettled ⊢
      exact hsettled
    · exact (h.whenever hm).mono (List.suffix_cons _ _)

/-- Something is recorded that has nothing to do with who waits. -/
theorem Attends.note {o : Occurrence} (h : w.Attends) (ho : ∀ q, o.Aside q)
    (hwoken : ∀ q name, o ≠ .woken q name) :
    (w.note o).Attends :=
  h.recorded (fun q c => (ho q).2 c) hwoken (fun q name _ h => absurd h ((ho q).1 name))
    (h.now.cons ho) fun _ => rfl

/-- Whoever waits in a queue is woken when a completion arrives. -/
theorem attends_arrived (h : w.Attends) (q : Key Queue) (c : Completion) :
    (w.arrived q c).Attends := by
  have hsettled := settled_arrived h.now q c
  obtain ⟨hawaited, hempty⟩ := h.now q
  cases hwaker : (w.state.queues.get q).waker with
  | none =>
      have heq : w.arrived q c = w.queued q c := by
        unfold arrived
        rw [hwaker]
      rw [heq] at hsettled ⊢
      refine ⟨hsettled, fun {m earlier} hm => ?_⟩
      rcases List.suffix_cons_iff.mp hm with heq | hm
      · obtain ⟨rfl, rfl⟩ := List.cons.inj heq
        refine ⟨(fun ho => by cases ho), fun ho => ho.elim, fun ho hwaiting => ?_,
          fun ho => by cases ho⟩
        obtain ⟨rfl, rfl⟩ := Occurrence.pushed.inj ho
        cases hwaiting.symm.trans (hawaited.trans hwaker)
      · exact (h.whenever hm).mono (List.suffix_cons _ _)
  | some waker =>
      have heq : w.arrived q c =
          ((w.queued q c).alter (·.setQueue q fun queue => { queue with waker := none })).note
            (.woken q waker.name) := by
        unfold arrived
        rw [hwaker]
      have hplaced := get_arrived (State.index_lt_of_waker hwaker) c
      rw [hempty (by rw [hwaker]; rfl)] at hplaced
      rw [heq] at hsettled hplaced ⊢
      refine ⟨hsettled, fun {m earlier} hm => ?_⟩
      rcases List.suffix_cons_iff.mp hm with heq | hm
      · obtain ⟨rfl, rfl⟩ := List.cons.inj heq
        refine ⟨(fun ho => by cases ho), fun _ => hsettled, (fun ho => by cases ho), fun ho => ?_⟩
        obtain ⟨rfl, rfl⟩ := Occurrence.woken.inj ho
        exact ⟨_, _, c, waker, rfl, rfl, hawaited.trans hwaker, rfl⟩
      · rcases List.suffix_cons_iff.mp hm with heq | hm
        · obtain ⟨rfl, rfl⟩ := List.cons.inj heq
          refine ⟨(fun ho => by cases ho), fun ho => ho.elim, fun ho hwaiting => ?_,
            fun ho => by cases ho⟩
          obtain ⟨rfl, rfl⟩ := Occurrence.pushed.inj ho
          obtain rfl := Option.some.inj (hwaiting.symm.trans (hawaited.trans hwaker))
          exact ⟨_, List.suffix_rfl, congrArg Queue.pending hplaced,
            congrArg Queue.waker hplaced⟩
        · exact (h.whenever hm).mono ((List.suffix_cons _ _).trans (List.suffix_cons _ _))

end World

theorem Repertoire.QueueStep.attends (h : Repertoire.alone.QueueStep w w') (hw : w.Attends) :
    w'.Attends := by
  cases h with
  | alter hsteady => exact hw.alter hsteady.queues
  | note hplain =>
      refine hw.note (fun q => ⟨fun name ho => ?_, fun c ho => ?_⟩) fun q name ho => ?_ <;>
        subst ho <;> exact hplain
  | attach => exact (hw.alter fun _ => rfl).note (fun q => ⟨by simp, by simp⟩) (by simp)
  | arrive q c => exact World.attends_arrived hw q c
  | pass c _ _ hsteady =>
      refine World.attends_arrived ?_ _ c
      exact (hw.alter hsteady.queues).note (fun q => ⟨by simp, by simp⟩) (by simp)
  | @hand q c rest hpending =>
      refine hw.recorded (by simp) (by simp) (by simp) (fun q' => ?_) fun h => h.elim
      rw [awaited_cons_of_aside ⟨by simp, by simp⟩]
      have hwaker := w.state.queues.apply_get_modify q q'
        (fun queue => { queue with pending := rest }) Queue.waker fun _ => rfl
      obtain ⟨hawaited, hempty⟩ := hw.now q'
      simp only [State.setQueue, World.alter_state] at hwaker ⊢
      refine ⟨hawaited.trans hwaker.symm, fun hwaiting => ?_⟩
      rw [hwaker] at hwaiting
      have hne : q' ≠ q := by
        rintro rfl
        rw [hempty hwaiting] at hpending
        cases hpending
      rw [Arena.get_modify_of_ne _ _ hne]
      exact hempty hwaiting
  | @wait q waker hpending =>
      refine hw.recorded (by simp) (by simp) (fun q' name waker' ho hwaker => ?_) (fun q' => ?_)
        fun h => h.elim
      · obtain ⟨rfl, rfl⟩ := Occurrence.waiting.inj ho
        simp only [World.left, State.setQueue, World.alter_state, Arena.get_modify] at hwaker
        split at hwaker
        · obtain rfl := Option.some.inj hwaker
          rfl
        · next hq =>
            have hbeyond : w.state.queues.size ≤ q.index :=
              Nat.not_lt.mp fun h => hq ⟨trivial, h⟩
            rw [w.state.queues.get_of_size_le q hbeyond] at hwaker
            cases hwaker
      by_cases heq : q' = q
      · subst heq
        refine ⟨awaited_cons_of_waiting rfl, fun _ => ?_⟩
        exact (Queue.apply_left w q' waker fun _ => rfl).trans hpending
      · have hsame := w.state.queues.get_modify_of_ne
          (fun queue => { queue with waker := some waker }) heq
        rw [awaited_cons_of_aside ⟨by simp [Ne.symm heq], by simp⟩]
        simp only [World.left, State.setQueue, World.alter_state, hsame]
        exact hw.now q'
  | race hhas =>
      cases hhas with
      | intro hrace => exact absurd rfl (hrace _ _ _)

/-! ## Sessions -/

/-- Nobody who waits in a queue is forgotten, and nobody is woken without reason. -/
structure World.Attentive (w : World) : Prop where
  /-- Where somebody waits, there is nothing to wait for. -/
  lone : ∀ q waker, (w.state.queues.get q).waker = some waker →
    (w.state.queues.get q).pending = []
  /-- Who waits is whoever was left in the queue last, and nothing was pushed there since. -/
  waits : ∀ q waker, (w.state.queues.get q).waker = some waker ↔
    ∃ part, Waits q waker part w.history
  /-- The first completion that is pushed then is in its place, and wakes whoever waits. -/
  first : ∀ {m earlier q c waker part}, m :: earlier <:+ w.history → m.occurrence = .pushed q c →
    Waits q waker part earlier →
      ∃ s, ⟨.woken q waker.name, s⟩ :: m :: earlier <:+ w.history ∧
        (s.queues.get q).pending = [c] ∧ (s.queues.get q).waker = none
  /-- Whoever is woken is so by a completion that is pushed just before, and waited for it. -/
  only : ∀ {m earlier q name}, m :: earlier <:+ w.history → m.occurrence = .woken q name →
    ∃ m' earlier' c waker part, earlier = m' :: earlier' ∧ m'.occurrence = .pushed q c ∧
      Waits q waker part earlier' ∧ waker.name = name
  /-- To have been left in a queue once is to be woken once at most. -/
  once : ∀ {m p m' p' earlier earlier' q name name' waker waker' part},
    m :: p :: earlier <:+ w.history → m' :: p' :: earlier' <:+ w.history →
      m.occurrence = .woken q name → m'.occurrence = .woken q name' →
        Waits q waker part earlier → Waits q waker' part earlier' →
          m :: p :: earlier = m' :: p' :: earlier'

namespace Session

open Repertoire

theorem IdleWith.attends (h : IdleWith .alone w) : w.Attends :=
  kept_of_steps (fun _ _ => QueueStep.attends) h.queueSteps World.attends_empty

theorem attentive_of_idle {w₀ : World} (h₀ : IdleWith .alone w₀)
    (hsuffix : w.history <:+ w₀.history) (hnow : w.state.Settled w.history)
    (hlast : ∀ {m earlier}, w.history = m :: earlier →
      w.history = w₀.history ∨ m.occurrence.Yields) :
    w.Attentive := by
  have hattended : ∀ {m earlier}, m :: earlier <:+ w.history → w₀.Attended m earlier :=
    fun hm => h₀.attends.whenever (hm.trans hsuffix)
  have hwaits : ∀ {q waker history}, history <:+ w.history →
      (awaited q history = some waker ↔ ∃ part, Waits q waker part history) := by
    intro q waker history hhistory
    refine ⟨waits_of_awaited fun m hm name waker => ?_, fun ⟨_, h⟩ => h.awaited_eq⟩
    obtain ⟨later, earlier, rfl⟩ := List.append_of_mem hm
    exact (hattended ((List.suffix_append later (m :: earlier)).trans hhistory)).named
  have honly : ∀ {m earlier q name}, m :: earlier <:+ w.history → m.occurrence = .woken q name →
      ∃ m' earlier' c waker part, earlier = m' :: earlier' ∧ m'.occurrence = .pushed q c ∧
        Waits q waker part earlier' ∧ waker.name = name := by
    intro m earlier q name hm ho
    obtain ⟨m', earlier', c, waker, rfl, ho', hawaited, hname⟩ := (hattended hm).only ho
    have hearlier : earlier' <:+ w.history :=
      ((List.suffix_cons _ _).trans (List.suffix_cons _ _)).trans hm
    obtain ⟨part, hpart⟩ := (hwaits hearlier).mp hawaited
    exact ⟨m', earlier', c, waker, part, rfl, ho', hpart, hname⟩
  refine ⟨fun q waker hwaker => (hnow q).2 (by rw [hwaker]; rfl), fun q waker => ?_,
    fun {m earlier q c waker part} hm ho hwaiting => ?_, honly, ?_⟩
  · rw [← hwaits List.suffix_rfl, (hnow q).1]
  · obtain ⟨s, hs, hqueue⟩ := (hattended hm).woken ho hwaiting.awaited_eq
    refine ⟨s, ?_, hqueue⟩
    rcases next_of_suffix hm hsuffix hs with htop | hs
    · rcases hlast htop with hsame | hyields
      · rwa [hsame]
      · rw [ho] at hyields
        exact hyields.elim
    · exact hs
  · intro m p m' p' earlier earlier' q name name' waker waker' part hm hm' ho ho' hwaits hwaits'
    obtain ⟨_, _, c, -, -, hsplit, hpushed, -⟩ := honly hm ho
    obtain ⟨_, _, c', -, -, hsplit', hpushed', -⟩ := honly hm' ho'
    obtain ⟨rfl, rfl⟩ := List.cons.inj hsplit
    obtain ⟨rfl, rfl⟩ := List.cons.inj hsplit'
    have hsame := first_unique ((List.suffix_cons _ _).trans hm) ((List.suffix_cons _ _).trans hm')
      hpushed hpushed' hwaits hwaits'
    have hlength : (m :: p :: earlier).length = (m' :: p' :: earlier').length := by
      simp only [List.length_cons, (List.cons.inj hsame).2]
    exact (List.suffix_of_suffix_length_le hm hm' (Nat.le_of_eq hlength)).eq_of_length hlength

theorem ReachableWith.attentive (h : ReachableWith .alone w) : w.Attentive := by
  cases h with
  | idle h => exact attentive_of_idle h List.suffix_rfl h.attends.now fun _ => .inl rfl
  | amid h hm hyields =>
      refine attentive_of_idle h hm ((h.attends.whenever hm).settled hyields) fun heq => .inr ?_
      obtain ⟨rfl, -⟩ := List.cons.inj heq
      exact hyields

/-- In sessions that one context carries out alone, whatever user code does when it is woken, no
waker is lost in a queue: a poll that is pending leaves its waker there, the first completion that
is pushed after that is in its place and then takes out and wakes whoever was left there last, and
nobody else is woken and nobody twice. -/
theorem ReachableWith.wakers_attended (h : ReachableWith .alone w) :
    w.Attentive ∧
      (∀ (limit : Nat) (atHand : Option (Key Batch)) (name waker : String) (route : PollRoute)
        (q : Key Queue) (found : Waker), w.state.directory.queues.find? name = some q →
          w.state.directory.wakers.find? waker = some found →
            Ensures (carryOut (player limit) atHand (.poll name route waker)) w fun r w' =>
              Queue.Attempt q w (fun c => .ok (.completion c)) (.ok .pending)
                ((w.left q found).note (.waiting q found.name)) r w' ∧
              (r = .ok (.ok .pending) → (w'.state.queues.get q).waker = some found ∧
                Waits q found w'.history w'.history)) ∧
      (∀ (play : Player) (q : Key Queue) (c : Completion),
        (w.state.queues.get q).waker = none →
          Ensures (Queue.push play q c) w fun r w' => r = .ok () ∧ w' = w.queued q c) ∧
      ∀ (play : Player) (q : Key Queue) (c : Completion) (waker : Waker)
        (Q : Except Fault Unit → World → Prop), (w.state.queues.get q).waker = some waker →
          ((w.arrived q c).state.queues.get q).pending = [c] ∧
            (Ensures (play.run none waker.code) (w.arrived q c) Q →
              Ensures (Queue.push play q c) w Q) := by
  have hsound := h.reachable.ready.sound
  refine ⟨h.attentive, ?_, fun play q c hwaker => ?_, fun play q c waker Q hwaker => ⟨?_, ?_⟩⟩
  · intro limit atHand name waker route q found hfind hfound
    have hq := hsound.queuesExist q (Names.mem_values_of_find? hfind)
    apply Ensures.mono (attempt_pollCommand (hsound.queuesFree q) hfind hfound route)
    intro r w' hr
    refine ⟨hr, fun hpending => ?_⟩
    cases hr with
    | found => cases hpending
    | empty =>
        have hleft := congrArg Queue.waker (w.get_left hq found)
        exact ⟨hleft, [], _, _, rfl, rfl, rfl, hleft, by simp⟩
  · refine Queue.ensures_push_arrived (hsound.queuesFree q) (fun _ => ⟨rfl, ?_⟩) fun waker h => ?_
    · unfold World.arrived
      rw [hwaker]
    · rw [hwaker] at h
      cases h
  · rw [World.get_arrived (State.index_lt_of_waker hwaker), h.attentive.lone q waker hwaker]
    rfl
  · intro hcode
    refine Queue.ensures_push_arrived (hsound.queuesFree q) (fun hnone => ?_) fun waker' h => ?_
    · rw [hwaker] at hnone
      cases hnone
    · obtain rfl := Option.some.inj (hwaker.symm.trans h)
      exact hcode

/-- A waker takes the completion by which it is woken, and waits again. -/
theorem wakers_attended_again :
    ∃ w, ReachableWith .alone w ∧ (w.state.queues.get ⟨0⟩).waker.isSome ∧
      (pushedTo ⟨0⟩ w.history).length = 1 ∧ w.Attentive := by
  have hscript : ∀ inner ∈ ([.tryNext "queue", .poll "queue" .stream "task"] : Script),
      Command.Alone inner := by
    simp only [List.mem_cons, List.not_mem_nil, or_false]
    rintro inner (rfl | rfl) <;> exact Command.alone_of_scripts_eq_nil (by simp) rfl
  have hcommands : ∀ command ∈ ([.addQueue "queue",
      .addWaker "task" (some [.tryNext "queue", .poll "queue" .stream "task"]),
      .poll "queue" .direct "task", .push "queue" default] : Script), Command.Alone command := by
    simp only [List.mem_cons, List.not_mem_nil, or_false]
    rintro command (rfl | rfl | rfl | rfl)
    · exact Command.alone_of_scripts_eq_nil (by simp) rfl
    · refine .intro (by simp) fun script h => ?_
      rw [List.mem_singleton.mp h]
      exact hscript
    · exact Command.alone_of_scripts_eq_nil (by simp) rfl
    · exact Command.alone_of_scripts_eq_nil (by simp) rfl
  have hreachable : ReachableWith .alone (after 1 _) := .idle (idleWith_after 1 hcommands)
  exact ⟨_, hreachable, by decide, by decide, hreachable.wakers_attended.1⟩

end Session
end UsbTransfer
