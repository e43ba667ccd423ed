import UsbTransfer.Proofs.Ledger
import UsbTransfer.Proofs.Registrations
import UsbTransfer.Proofs.QueueSteps

/-!
# Deliveries

A handler for which a queue is registered passes its completion on in the moment in which it is
invoked.  So the completions of batches are in a queue in the order in which the batches came to
invoke their handlers, wherever that was, and every batch has contributed one of them or none.
-/

namespace UsbTransfer

open Run

/-! ## What steps of queues record -/

/-- It is recorded that the batch was given the handler. -/
def Recorded (history : List Moment) (b : Key Batch) (handler : Handler) : Prop :=
  ∃ m ∈ history, m.occurrence = .handlerAttached b handler.serial ∧
    (m.state.batches.get b).handler = some handler

theorem Recorded.mono {history history' : List Moment} {b : Key Batch} {handler : Handler}
    (h : Recorded history b handler) (hsubset : history ⊆ history') :
    Recorded history' b handler := by
  obtain ⟨m, hm, hattached⟩ := h
  exact ⟨m, hsubset hm, hattached⟩

variable {A : Repertoire} {w w' : World} {m : Moment} {earlier : List Moment} {q : Key Queue}
  {c : Completion}

namespace World

/-- What is recorded with an arrival. -/
theorem arrived_records (hm : m :: earlier <:+ (w.arrived q c).history) :
    m :: earlier <:+ w.history ∨ w.history <:+ earlier ∧ m.state.batches = w.state.batches ∧
      (m.occurrence = .pushed q c ∨ ∃ name, m.occurrence = .woken q name) := by
  have hqueued : m :: earlier <:+ (w.queued q c).history →
      m :: earlier <:+ w.history ∨ w.history <:+ earlier ∧ m.state.batches = w.state.batches ∧
        (m.occurrence = .pushed q c ∨ ∃ name, m.occurrence = .woken q name) := by
    intro hm
    rcases List.suffix_cons_iff.mp hm with heq | hm
    · obtain ⟨rfl, rfl⟩ := List.cons.inj heq
      exact .inr ⟨List.suffix_rfl, rfl, .inl rfl⟩
    · exact .inl hm
  unfold arrived at hm
  split at hm
  · exact hqueued hm
  · rcases List.suffix_cons_iff.mp hm with heq | hm
    · obtain ⟨rfl, rfl⟩ := List.cons.inj heq
      exact .inr ⟨List.suffix_cons _ _, rfl, .inr ⟨_, rfl⟩⟩
    · exact hqueued hm

theorem queued_suffix (w : World) (q : Key Queue) (c : Completion) :
    (w.queued q c).history <:+ (w.arrived q c).history := by
  unfold arrived
  split
  · exact List.suffix_rfl
  · exact List.suffix_cons _ _

theorem batches_arrived (w : World) (q : Key Queue) (c : Completion) :
    (w.arrived q c).state.batches = w.state.batches := by
  unfold arrived
  split <;> rfl

end World

namespace Repertoire

theorem QueueStep.suffix (h : A.QueueStep w w') : w.history <:+ w'.history := by
  cases h with
  | alter | race => exact List.suffix_rfl
  | note | attach | hand | wait => exact List.suffix_cons _ _
  | arrive q c => exact (List.suffix_cons _ _).trans (w.queued_suffix q c)
  | @pass b handler q c f =>
      have hqueued := ((w.alter f).note (.handlerInvoked b handler.serial none c)).queued_suffix q c
      exact (List.suffix_cons _ _).trans ((List.suffix_cons _ _).trans hqueued)

theorem suffix_of_queueSteps (h : Relation.ReflTransGen A.QueueStep w w') :
    w.history <:+ w'.history := by
  induction h with
  | refl => exact List.suffix_rfl
  | tail _ hstep ih => exact ih.trans hstep.suffix

/-- When a batch gets a handler, that is recorded. -/
theorem recorded_of_attachHandler {s : State} {b b' : Key Batch} {action : HandlerAction}
    {captured : List (Key Endpoint)} {noisy : Bool} {handler : Handler}
    (h : ((s.attachHandler b' action captured noisy).batches.get b).handler = some handler) :
    (s.batches.get b).handler = some handler ∨
      Recorded [⟨.handlerAttached b' s.serial, s.attachHandler b' action captured noisy⟩] b
        handler := by
  have hattached := h
  simp only [State.attachHandler, Arena.get_modify] at hattached
  split at hattached
  · next heq =>
      obtain ⟨rfl, -⟩ := heq
      obtain rfl := Option.some.inj hattached
      exact .inr ⟨_, List.mem_singleton_self _, rfl, h⟩
  · exact .inl hattached

/-- What a step records. -/
structure Recent (w w' : World) (m : Moment) (earlier : List Moment) : Prop where
  suffix : w.history <:+ earlier
  handlers : ∀ b handler, (m.state.batches.get b).handler = some handler →
    (w.state.batches.get b).handler = some handler ∨ Recorded [m] b handler
  /-- Who passes completions on passes this one on next. -/
  passed : ∀ b n c, m.occurrence = .handlerInvoked b n none c →
    ∃ q handler s, (w.state.batches.get b).handler = some handler ∧ handler.serial = n ∧
      handler.action = .forward q ∧ ⟨.pushed q c, s⟩ :: m :: earlier <:+ w'.history

theorem QueueStep.recent (h : A.QueueStep w w') (hm : m :: earlier <:+ w'.history) :
    m :: earlier <:+ w.history ∨ Recent w w' m earlier := by
  have hone : ∀ {o : Occurrence} {s : State}, w'.history = ⟨o, s⟩ :: w.history →
      (∀ b handler, (s.batches.get b).handler = some handler →
        (w.state.batches.get b).handler = some handler ∨ Recorded [⟨o, s⟩] b handler) →
      (∀ b n c, o ≠ .handlerInvoked b n none c) →
        m :: earlier <:+ w.history ∨ Recent w w' m earlier := by
    intro o s hhistory hhandlers hother
    rw [hhistory] at hm
    rcases List.suffix_cons_iff.mp hm with heq | hm
    · obtain ⟨rfl, rfl⟩ := List.cons.inj heq
      exact .inr ⟨List.suffix_rfl, hhandlers, fun b n c ho => absurd ho (hother b n c)⟩
    · exact .inl hm
  have harrived : ∀ (q : Key Queue) (c : Completion),
      (m.occurrence = .pushed q c ∨ ∃ name, m.occurrence = .woken q name) →
        ∀ b n c', m.occurrence ≠ .handlerInvoked b n none c' := by
    rintro q c (ho | ⟨name, ho⟩) b n c' <;> simp [ho]
  cases h with
  | alter | race => exact .inl hm
  | @note o hplain =>
      refine hone rfl (fun _ _ => .inl) fun b n c ho => ?_
      subst ho
      exact hplain
  | attach =>
      exact hone rfl (fun _ _ => recorded_of_attachHandler) (by simp)
  | hand | wait => exact hone rfl (fun _ _ => .inl) (by simp)
  | arrive q c =>
      refine (World.arrived_records hm).imp_right fun ⟨hsuffix, hbatches, ho⟩ => ⟨hsuffix, ?_, ?_⟩
      · exact fun b handler hhandler => .inl (hbatches ▸ hhandler)
      · exact fun b n c' ho' => absurd ho' (harrived q c ho b n c')
  | @pass b handler q c f hhandler haction hsteady =>
      rcases World.arrived_records hm with hm | ⟨hsuffix, hbatches, ho⟩
      · rcases List.suffix_cons_iff.mp hm with heq | hm
        · obtain ⟨rfl, rfl⟩ := List.cons.inj heq
          refine .inr ⟨List.suffix_rfl, fun b handler h => .inl (hsteady.handlers b handler h), ?_⟩
          intro b' n c' ho
          obtain ⟨rfl, rfl, -, rfl⟩ := Occurrence.handlerInvoked.inj ho
          exact ⟨q, handler, _, hhandler, rfl, haction,
            ((w.alter f).note (.handlerInvoked b handler.serial none c)).queued_suffix q c⟩
        · exact .inl hm
      · refine .inr ⟨(List.suffix_cons _ _).trans hsuffix, fun b handler h => .inl ?_, ?_⟩
        · rw [hbatches] at h
          exact hsteady.handlers b handler h
        · exact fun b n c' ho' => absurd ho' (harrived q c ho b n c')

/-- A batch has got its handler before the step, or the step records that it gets it. -/
theorem QueueStep.handlers (h : A.QueueStep w w') {b : Key Batch} {handler : Handler}
    (hhandler : (w'.state.batches.get b).handler = some handler) :
    (w.state.batches.get b).handler = some handler ∨ Recorded w'.history b handler := by
  cases h with
  | alter hsteady => exact .inl (hsteady.handlers b handler hhandler)
  | note | hand | wait | race => exact .inl hhandler
  | attach =>
      exact (recorded_of_attachHandler hhandler).imp_right fun h => h.mono (by simp)
  | arrive q c =>
      rw [World.batches_arrived] at hhandler
      exact .inl hhandler
  | pass c _ _ hsteady =>
      rw [World.batches_arrived] at hhandler
      exact .inl (hsteady.handlers b handler hhandler)

/-! ## What handlers pass on -/

/-- Whatever handler a batch has got was given to it on record, and whoever passed a completion on
since an earlier world did so at once, to the queue for which it had been given to its batch. -/
structure PassesOn (old w : World) : Prop where
  grown : old.history <:+ w.history
  now : ∀ b handler, (w.state.batches.get b).handler = some handler → Recorded w.history b handler
  whenever : ∀ {m earlier}, m :: earlier <:+ w.history → ∀ b handler,
    (m.state.batches.get b).handler = some handler → Recorded (m :: earlier) b handler
  passed : ∀ {m earlier b n c}, m :: earlier <:+ w.history → ¬ m :: earlier <:+ old.history →
    m.occurrence = .handlerInvoked b n none c →
      ∃ q handler s, Recorded earlier b handler ∧ handler.serial = n ∧
        handler.action = .forward q ∧ ⟨.pushed q c, s⟩ :: m :: earlier <:+ w.history

theorem QueueStep.passesOn {old : World} (h : A.QueueStep w w') (hw : PassesOn old w) :
    PassesOn old w' := by
  have hgrown : w.history ⊆ w'.history := h.suffix.subset
  have hnow : ∀ b handler, (w'.state.batches.get b).handler = some handler →
      Recorded w'.history b handler := by
    intro b handler hhandler
    rcases h.handlers hhandler with hhandler | hrecorded
    · exact (hw.now b handler hhandler).mono hgrown
    · exact hrecorded
  refine ⟨hw.grown.trans h.suffix, hnow, fun {m earlier} hm b handler hhandler => ?_,
    fun {m earlier b n c} hm hnew ho => ?_⟩
  · rcases h.recent hm with hm | hrecent
    · exact hw.whenever hm b handler hhandler
    · rcases hrecent.handlers b handler hhandler with hbefore | hrecorded
      · exact (hw.now b handler hbefore).mono fun m' hm' =>
          List.mem_cons_of_mem m (hrecent.suffix.subset hm')
      · exact hrecorded.mono (by simp)
  · rcases h.recent hm with hm | hrecent
    · obtain ⟨q, handler, s, hrecorded, hn, haction, hpushed⟩ := hw.passed hm hnew ho
      exact ⟨q, handler, s, hrecorded, hn, haction, hpushed.trans h.suffix⟩
    · obtain ⟨q, handler, s, hhandler, hn, haction, hpushed⟩ := hrecent.passed b n c ho
      have hrecorded := (hw.now b handler hhandler).mono hrecent.suffix.subset
      exact ⟨q, handler, s, hrecorded, hn, haction, hpushed⟩

theorem passesOn_of_queueSteps {old : World} (h : Relation.ReflTransGen A.QueueStep w w')
    (hw : PassesOn old w) :
    PassesOn old w' :=
  kept_of_steps (fun _ _ => QueueStep.passesOn) h hw

theorem passesOn_empty : PassesOn .empty .empty where
  grown := List.suffix_rfl
  now := by
    intro b handler h
    cases h
  whenever := fun hm => absurd (List.suffix_nil.mp hm) (List.cons_ne_nil _ _)
  passed := fun hm => absurd (List.suffix_nil.mp hm) (List.cons_ne_nil _ _)

/-- All scripts belong to the repertoire of all commands. -/
theorem covers_all {s : State} (hs : s.Sound) : Repertoire.all.Covers s where
  plans := fun _ _ _ _ _ => trivial
  handlers := fun _ _ _ _ _ _ _ => trivial
  queues := fun _ _ _ _ _ _ _ => trivial
  wakers := fun _ _ _ _ _ _ => trivial
  unlocked := hs.queuesFree

end Repertoire

/-! ## The order in which handlers pass on -/

/-- How handlers pass completions on. -/
structure World.Delivered (w : World) : Prop where
  /-- Whoever passes a completion on does so at once, unless this is the world in which he is about
  to do so.  It goes to the queue for which he was given to the batch, and has its place there
  behind all that was pushed before he was invoked. -/
  passed : ∀ {m earlier b n c}, m :: earlier <:+ w.history →
    m.occurrence = .handlerInvoked b n none c →
      w.history = m :: earlier ∨
        ∃ q handler s later, w.history = later ++ ⟨.pushed q c, s⟩ :: m :: earlier ∧
          Recorded earlier b handler ∧ handler.serial = n ∧ handler.action = .forward q ∧
            pushedTo q w.history = pushedTo q earlier ++ c :: pushedTo q later
  /-- No handler is invoked twice. -/
  once : ∀ {m m' earlier earlier' b n name? name'? c c'}, m :: earlier <:+ w.history →
    m' :: earlier' <:+ w.history → m.occurrence = .handlerInvoked b n name? c →
      m'.occurrence = .handlerInvoked b n name'? c' → m :: earlier = m' :: earlier'
  /-- Whoever is invoked was in the batch ever since, and so no other took his place. -/
  kept : ∀ {m m' a between earlier b n name? c}, m :: (between ++ a :: earlier) <:+ w.history →
    m.occurrence = .handlerInvoked b n name? c → a.occurrence = .handlerAttached b n →
      m' ∈ between →
        ∃ handler, (m'.state.batches.get b).handler = some handler ∧ handler.serial = n

/-- What is next to a part of a history is known if it is next to it in a longer one. -/
theorem next_of_suffix {α : Type} {x : α} {part history whole : List α} (hpart : part <:+ history)
    (hhistory : history <:+ whole) (hnext : x :: part <:+ whole) :
    history = part ∨ x :: part <:+ history := by
  by_cases hlength : (x :: part).length ≤ history.length
  · exact .inr (List.suffix_of_suffix_length_le hnext hhistory hlength)
  · rw [List.length_cons] at hlength
    exact .inl (hpart.eq_of_length_le (by omega)).symm

namespace Session

open Repertoire

theorem Idle.passesOn (h : Idle w) : PassesOn .empty w :=
  passesOn_of_queueSteps h.with_all.queueSteps passesOn_empty

/-- Wherever user code finds itself, handlers have been given to batches on record. -/
theorem Reachable.passesOn (h : Reachable w) : PassesOn w w := by
  have hself : ∀ {w₀ : World}, Idle w₀ → w.history <:+ w₀.history →
      (∀ b handler, (w.state.batches.get b).handler = some handler →
        Recorded w.history b handler) → PassesOn w w := by
    intro w₀ h₀ hsuffix hnow
    refine ⟨List.suffix_rfl, hnow, fun hm => h₀.passesOn.whenever (hm.trans hsuffix), ?_⟩
    exact fun hm hnew => absurd hm hnew
  cases h with
  | idle h => exact hself h List.suffix_rfl h.passesOn.now
  | amid h hm => exact hself h hm (h.passesOn.whenever hm)

theorem delivered_of_idle {w₀ : World} (h₀ : Idle w₀) (hsuffix : w.history <:+ w₀.history)
    (hchronicled : w.Chronicled) :
    w.Delivered where
  passed := by
    intro m earlier b n c hm ho
    have hnew : ¬ m :: earlier <:+ World.empty.history :=
      fun h => absurd (List.suffix_nil.mp h) (List.cons_ne_nil _ _)
    obtain ⟨q, handler, s, hrecorded, hn, haction, hpushed⟩ :=
      h₀.passesOn.passed (hm.trans hsuffix) hnew ho
    refine (next_of_suffix hm hsuffix hpushed).imp_right fun ⟨later, hlater⟩ => ?_
    refine ⟨q, handler, s, later, hlater.symm, hrecorded, hn, haction, ?_⟩
    rw [← hlater]
    simp [pushedTo_append, pushedTo_cons, ho, Occurrence.pushedTo?]
  once := hchronicled.invoked_once
  kept := hchronicled.kept

theorem Reachable.delivered (h : Reachable w) : w.Delivered := by
  have hchronicled := h.changes.chronicled
  cases h with
  | idle h => exact delivered_of_idle h List.suffix_rfl hchronicled
  | amid h hm => exact delivered_of_idle h hm hchronicled

end Session
end UsbTransfer
