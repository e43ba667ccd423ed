import UsbTransfer.Proofs.Changes

/-!
# The ledger of a queue

Completions are neither lost nor doubled in a queue, and none overtakes another: at every moment,
what was handed out, followed by what is still there, is what was pushed.
-/

namespace UsbTransfer

/-- What the occurrences of a history tell, the first one first. -/
def told {α : Type} (tells? : Occurrence → Option α) (history : List Moment) : List α :=
  history.reverse.filterMap fun m => tells? m.occurrence

section Told

variable {α : Type} {tells? : Occurrence → Option α}

@[simp]
theorem told_cons (m : Moment) (history : List Moment) :
    told tells? (m :: history) = told tells? history ++ (tells? m.occurrence).toList := by
  cases h : tells? m.occurrence <;> simp [told, h]

theorem told_append (later earlier : List Moment) :
    told tells? (later ++ earlier) = told tells? earlier ++ told tells? later := by
  simp [told]

end Told

namespace Occurrence

/-- The completion that was appended to the queue. -/
def pushedTo? (q : Key Queue) : Occurrence → Option Completion
  | .pushed q' c => if q' = q then some c else none
  | _ => none

/-- The completion that was taken from the queue. -/
def handedOutOf? (q : Key Queue) : Occurrence → Option Completion
  | .handedOut q' c => if q' = q then some c else none
  | _ => none

@[simp]
theorem pushedTo?_pushed (q q' : Key Queue) (c : Completion) :
    (pushed q' c).pushedTo? q = if q' = q then some c else none :=
  rfl

@[simp]
theorem pushedTo?_handedOut (q q' : Key Queue) (c : Completion) :
    (handedOut q' c).pushedTo? q = none :=
  rfl

@[simp]
theorem handedOutOf?_handedOut (q q' : Key Queue) (c : Completion) :
    (handedOut q' c).handedOutOf? q = if q' = q then some c else none :=
  rfl

@[simp]
theorem handedOutOf?_pushed (q q' : Key Queue) (c : Completion) :
    (pushed q' c).handedOutOf? q = none :=
  rfl

theorem not_pushedTo_of_fits {s : State} {o : Occurrence} (h : o.Fits s) (q : Key Queue) :
    o.pushedTo? q = none := by
  cases o <;> first | rfl | exact h.elim

theorem not_handedOutOf_of_fits {s : State} {o : Occurrence} (h : o.Fits s) (q : Key Queue) :
    o.handedOutOf? q = none := by
  cases o <;> first | rfl | exact h.elim

end Occurrence

/-- The completions that were appended to a queue. -/
def pushedTo (q : Key Queue) (history : List Moment) : List Completion :=
  told (·.pushedTo? q) history

/-- The completions that were taken from a queue. -/
def handedOutOf (q : Key Queue) (history : List Moment) : List Completion :=
  told (·.handedOutOf? q) history

theorem pushedTo_cons (q : Key Queue) (m : Moment) (history : List Moment) :
    pushedTo q (m :: history) = pushedTo q history ++ (m.occurrence.pushedTo? q).toList :=
  told_cons m history

theorem pushedTo_append (q : Key Queue) (later earlier : List Moment) :
    pushedTo q (later ++ earlier) = pushedTo q earlier ++ pushedTo q later :=
  told_append later earlier

theorem handedOutOf_cons (q : Key Queue) (m : Moment) (history : List Moment) :
    handedOutOf q (m :: history) = handedOutOf q history ++ (m.occurrence.handedOutOf? q).toList :=
  told_cons m history

/-- What was handed out of the queue, followed by what is in it, is what was pushed. -/
def State.Squares (s : State) (q : Key Queue) (history : List Moment) : Prop :=
  handedOutOf q history ++ (s.queues.get q).pending = pushedTo q history

/-- The ledgers of all queues square, and they did at every moment. -/
structure World.Faithful (w : World) : Prop where
  now : ∀ q, w.state.Squares q w.history
  whenever : ∀ q m earlier, m :: earlier <:+ w.history → m.state.Squares q (m :: earlier)

theorem View.pending_of (v : View) (s : State) (q : Key Queue) :
    ((v.of s).queues.get q).pending = (s.queues.get q).pending := by
  cases v with
  | unlocked | table => rfl
  | queue q' => exact s.queues.apply_get_modify q' q _ Queue.pending fun _ => rfl

theorem faithful_empty : World.empty.Faithful where
  now := fun _ => rfl
  whenever := fun _ _ _ h => absurd (List.suffix_nil.mp h) (List.cons_ne_nil _ _)

namespace World

variable {w w' : World} {f : State → State} {o : Occurrence}

/-- Queues hold what they held. -/
theorem Faithful.alter (h : w.Faithful)
    (hpending : ∀ q, ((f w.state).queues.get q).pending = (w.state.queues.get q).pending) :
    (w.alter f).Faithful where
  now := by
    intro q
    unfold State.Squares
    rw [World.alter_state, hpending]
    exact h.now q
  whenever := h.whenever

/-- An occurrence is recorded that squares the ledgers. -/
theorem Faithful.recorded {s : State} (h : w.Faithful) (v : View)
    (hsquares : ∀ q, s.Squares q (⟨o, v.of s⟩ :: w.history)) :
    World.Faithful ⟨s, ⟨o, v.of s⟩ :: w.history⟩ where
  now := hsquares
  whenever := by
    intro q m earlier hm
    rcases List.suffix_cons_iff.mp hm with heq | hm
    · obtain ⟨rfl, rfl⟩ := List.cons.inj heq
      unfold State.Squares
      rw [v.pending_of]
      exact hsquares q
    · exact h.whenever q m earlier hm

/-- The occurrence is about something else than queues. -/
theorem Faithful.noteUnder (h : w.Faithful) (v : View) (hpushed : ∀ q, o.pushedTo? q = none)
    (hhanded : ∀ q, o.handedOutOf? q = none) :
    (w.noteUnder v o).Faithful := by
  refine h.recorded (s := w.state) v fun q => ?_
  unfold State.Squares
  simp only [pushedTo_cons, handedOutOf_cons, hpushed q, hhanded q, Option.toList_none,
    List.append_nil]
  exact h.now q

theorem Faithful.note (h : w.Faithful) (hpushed : ∀ q, o.pushedTo? q = none)
    (hhanded : ∀ q, o.handedOutOf? q = none) :
    (w.note o).Faithful :=
  h.noteUnder .unlocked hpushed hhanded

end World

variable {hands : Hands} {w w' : World}

/-- A change appends what is pushed and takes away what is handed out, and nothing else. -/
theorem Change.faithful (h : Change hands w w') (hw : w.Faithful) : w'.Faithful := by
  cases h with
  | consult | addBus | addTable | rename | edit | detachHandler | detachData | changeData
  | keepHandle | takeHandle | lend | unlend | nameBatch | unnameBatch => exact hw.alter fun _ => rfl
  | uninstall hslot =>
      obtain ⟨_, -, rfl⟩ := State.uninstall?_eq_some hslot
      exact hw.alter fun _ => rfl
  | addQueue =>
      refine hw.alter fun q => ?_
      rw [Arena.get_push]
      split
      · next heq => rw [heq, Arena.get_nextKey]
      · rfl
  | leaveWaker waker =>
      exact hw.alter fun q => w.state.queues.apply_get_modify _ q _ Queue.pending fun _ => rfl
  | createEndpoint | release | advanceToggle | build | giveUpEndpoint | handOver | attachHandler
  | attachData => exact (hw.alter fun _ => rfl).note (fun _ => rfl) fun _ => rfl
  | releaseLast =>
      refine World.Faithful.note ?_ (fun _ => rfl) fun _ => rfl
      refine World.Faithful.alter ?_ fun _ => rfl
      exact (hw.alter fun _ => rfl).note (fun _ => rfl) fun _ => rfl
  | acquire v | setToggle _ _ v =>
      exact (hw.alter fun _ => rfl).noteUnder v (fun _ => rfl) fun _ => rfl
  | note v hfits =>
      exact hw.noteUnder v (Occurrence.not_pushedTo_of_fits hfits)
        (Occurrence.not_handedOutOf_of_fits hfits)
  | @install t =>
      exact (hw.noteUnder (.table t) (fun _ => rfl) fun _ => rfl).alter fun _ => rfl
  | giveUpTable => exact (hw.note (fun _ => rfl) fun _ => rfl).alter fun _ => rfl
  | wake hwaker =>
      refine World.Faithful.note (hw.alter fun q => ?_) (fun _ => rfl) fun _ => rfl
      exact w.state.queues.apply_get_modify _ q _ Queue.pending fun _ => rfl
  | @push q c hq =>
      refine hw.recorded (.queue q) fun q' => ?_
      have hsquares := hw.now q'
      unfold State.Squares at hsquares ⊢
      simp only [pushedTo_cons, handedOutOf_cons, Occurrence.pushedTo?_pushed,
        Occurrence.handedOutOf?_pushed, Option.toList_none, List.append_nil, State.setQueue,
        World.alter_state]
      by_cases heq : q' = q
      · subst heq
        rw [Arena.get_modify_self _ _ _ hq, if_pos rfl, ← hsquares]
        simp
      · rw [Arena.get_modify_of_ne _ _ heq, if_neg (Ne.symm heq), hsquares]
        simp
  | @handOut q c rest hpending =>
      refine hw.recorded (.queue q) fun q' => ?_
      have hsquares := hw.now q'
      unfold State.Squares at hsquares ⊢
      simp only [pushedTo_cons, handedOutOf_cons, Occurrence.pushedTo?_handedOut,
        Occurrence.handedOutOf?_handedOut, Option.toList_none, List.append_nil, State.setQueue,
        World.alter_state]
      by_cases heq : q' = q
      · subst heq
        rw [Arena.get_modify_self _ _ _ (State.index_lt_of_pending hpending), if_pos rfl,
          ← hsquares, hpending]
        simp
      · rw [Arena.get_modify_of_ne _ _ heq, if_neg (Ne.symm heq), ← hsquares]
        simp

/-- Whatever is done with queues, their ledgers square at every moment. -/
theorem Changes.faithful (h : Changes hands World.empty w) : w.Faithful :=
  kept_of_steps (fun _ _ => Change.faithful) h faithful_empty

end UsbTransfer
