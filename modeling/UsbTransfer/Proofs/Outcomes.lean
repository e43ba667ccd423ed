import UsbTransfer.Run
import Mathlib.Logic.Relation

/-!
# Outcomes of operations

An operation either returns a value or ends in a fault, and leaves a world behind on both ways
out.  `Ensures` speaks about both at once, so that a statement about an operation covers its
faults.  The rules below carry out an operation step by step.
-/

namespace UsbTransfer

namespace World

/-- The world after a change of its state. -/
def alter (w : World) (f : State → State) : World :=
  { w with state := f w.state }

/-- The world after an occurrence was recorded. -/
def note (w : World) (o : Occurrence) : World :=
  { w with history := ⟨o, w.state⟩ :: w.history }

@[simp]
theorem alter_state (w : World) (f : State → State) :
    (w.alter f).state = f w.state :=
  rfl

@[simp]
theorem alter_history (w : World) (f : State → State) :
    (w.alter f).history = w.history :=
  rfl

@[simp]
theorem note_state (w : World) (o : Occurrence) :
    (w.note o).state = w.state :=
  rfl

@[simp]
theorem note_history (w : World) (o : Occurrence) :
    (w.note o).history = ⟨o, w.state⟩ :: w.history :=
  rfl

end World

/-- What each step keeps is kept by any number of steps. -/
theorem kept_of_steps {α : Type} {Step : α → α → Prop} {I : α → Prop} {a a' : α}
    (hkept : ∀ a a', Step a a' → I a → I a') (h : Relation.ReflTransGen Step a a') (ha : I a) :
    I a' := by
  induction h with
  | refl => exact ha
  | tail _ hstep ih => exact hkept _ _ hstep ih

namespace Run

variable {α β : Type}

/-- Started in `w`, the operation comes to an outcome and a world for which `Q` holds. -/
def Ensures (m : Run α) (w : World) (Q : Except Fault α → World → Prop) : Prop :=
  match m w with
  | .ok a w' => Q (.ok a) w'
  | .error fault w' => Q (.error fault) w'

/-- What is left to ensure after a first part that came to an outcome. -/
def Then (f : α → Run β) (Q : Except Fault β → World → Prop) :
    Except Fault α → World → Prop
  | .ok a, w => Ensures (f a) w Q
  | .error fault, w => Q (.error fault) w

@[simp]
theorem then_ok (f : α → Run β) (Q : Except Fault β → World → Prop) (a : α) (w : World) :
    Then f Q (.ok a) w ↔ Ensures (f a) w Q :=
  Iff.rfl

@[simp]
theorem then_error (f : α → Run β) (Q : Except Fault β → World → Prop) (fault : Fault)
    (w : World) :
    Then f Q (.error fault) w ↔ Q (.error fault) w :=
  Iff.rfl

theorem Ensures.mono {m : Run α} {w : World} {Q R : Except Fault α → World → Prop}
    (h : Ensures m w Q) (hQR : ∀ r w', Q r w' → R r w') :
    Ensures m w R := by
  unfold Ensures at h ⊢
  split at h
  · exact hQR _ _ h
  · exact hQR _ _ h

theorem Ensures.and {m : Run α} {w : World} {Q R : Except Fault α → World → Prop}
    (hQ : Ensures m w Q) (hR : Ensures m w R) :
    Ensures m w fun r w' => Q r w' ∧ R r w' := by
  unfold Ensures at hQ hR ⊢
  cases h : m w <;> simp_all

/-- What is ensured in every case is ensured of all cases together. -/
theorem ensures_forall {ι : Sort _} {m : Run α} {w : World} {Q : ι → Except Fault α → World → Prop}
    (h : ∀ i, Ensures m w (Q i)) :
    Ensures m w fun r w' => ∀ i, Q i r w' := by
  unfold Ensures at h ⊢
  cases hm : m w <;> simpa only [hm] using h

@[simp]
theorem ensures_pure (a : α) (w : World) (Q : Except Fault α → World → Prop) :
    Ensures (pure a) w Q ↔ Q (.ok a) w :=
  Iff.rfl

@[simp]
theorem ensures_throw (fault : Fault) (w : World) (Q : Except Fault α → World → Prop) :
    Ensures (throw fault) w Q ↔ Q (.error fault) w :=
  Iff.rfl

@[simp]
theorem ensures_bind (m : Run α) (f : α → Run β) (w : World)
    (Q : Except Fault β → World → Prop) :
    Ensures (m >>= f) w Q ↔ Ensures m w (Then f Q) := by
  unfold Ensures
  simp only [bind, EStateM.bind]
  cases m w <;> rfl

@[simp]
theorem ensures_getState (w : World) (Q : Except Fault State → World → Prop) :
    Ensures getState w Q ↔ Q (.ok w.state) w :=
  Iff.rfl

@[simp]
theorem ensures_modifyState (f : State → State) (w : World)
    (Q : Except Fault Unit → World → Prop) :
    Ensures (modifyState f) w Q ↔ Q (.ok ()) (w.alter f) :=
  Iff.rfl

@[simp]
theorem ensures_record (o : Occurrence) (w : World) (Q : Except Fault Unit → World → Prop) :
    Ensures (record o) w Q ↔ Q (.ok ()) (w.note o) :=
  Iff.rfl

@[simp]
theorem ensures_attempt (m : Run α) (w : World)
    (Q : Except Fault (Except Fault α) → World → Prop) :
    Ensures (attempt m) w Q ↔ Ensures m w fun r w' => Q (.ok r) w' := by
  unfold Ensures attempt
  cases m w <;> rfl

/-- The outcome of two parts of which the second one runs in any case. -/
def settled : Except Fault α → Except Fault Unit → Except Fault α
  | .ok a, .ok () => .ok a
  | .ok _, .error fault => .error fault
  | .error fault, _ => .error fault

@[simp]
theorem settled_error (fault : Fault) (r : Except Fault Unit) :
    settled (.error fault : Except Fault α) r = .error fault := by
  cases r <;> rfl

@[simp]
theorem settled_ok (a : α) :
    settled (.ok a) (.ok ()) = .ok a :=
  rfl

@[simp]
theorem settled_ok_error (a : α) (fault : Fault) :
    settled (.ok a) (.error fault) = .error fault :=
  rfl

@[simp]
theorem ensures_ensuring (m : Run α) (after : Run Unit) (w : World)
    (Q : Except Fault α → World → Prop) :
    Ensures (ensuring m after) w Q ↔
      Ensures m w fun r w' => Ensures after w' fun r' w'' => Q (settled r r') w'' := by
  unfold ensuring
  rw [ensures_bind, ensures_attempt]
  unfold Ensures
  cases m w with
  | ok a w' =>
      simp only [then_ok, ensures_bind]
      unfold Ensures
      cases after w' <;> rfl
  | error fault w' =>
      simp only [then_ok, ensures_bind, ensures_attempt]
      unfold Ensures
      cases after w' <;> rfl

@[simp]
theorem ensures_onFault (m : Run α) (after : Run Unit) (w : World)
    (Q : Except Fault α → World → Prop) :
    Ensures (onFault m after) w Q ↔
      Ensures m w fun r w' =>
        match r with
        | .ok a => Q (.ok a) w'
        | .error fault => Ensures after w' fun _ w'' => Q (.error fault) w'' := by
  unfold onFault
  rw [ensures_bind, ensures_attempt]
  unfold Ensures
  cases m w with
  | ok a w' => rfl
  | error fault w' =>
      simp only [then_ok, ensures_bind, ensures_attempt]
      unfold Ensures
      cases after w' <;> rfl

/-- A lock that is free is held meanwhile and free again after that, unless a fault strikes. -/
theorem ensures_guarding {lock : State → Lock} {set : Lock → State → State} {m : Run α}
    {w : World} {Q : Except Fault α → World → Prop} (hfree : lock w.state = .free) :
    Ensures (guarding lock set m) w Q ↔
      Ensures m (w.alter (set .held)) fun r w' =>
        match r with
        | .ok a => Q (.ok a) (w'.alter (set .free))
        | .error fault => Q (.error fault) (w'.alter (set .poisoned)) := by
  unfold guarding
  simp only [ensures_bind, ensures_getState, then_ok, hfree, ensures_modifyState,
    ensures_attempt]
  unfold Ensures
  cases m (w.alter (set .held)) <;> rfl

/-- A lock that is not free keeps everybody out. -/
theorem ensures_guarding_of_taken {lock : State → Lock} {set : Lock → State → State} {m : Run α}
    {w : World} {Q : Except Fault α → World → Prop} (htaken : lock w.state ≠ .free)
    (hQ : ∀ fault, Q (.error fault) w) :
    Ensures (guarding lock set m) w Q := by
  unfold guarding
  rw [ensures_bind, ensures_getState, then_ok]
  split
  · exact hQ _
  · exact hQ _
  · next hfree => exact absurd hfree htaken

/-- Started in `w`, the operation ends in a fault. -/
def Faults (m : Run α) (w : World) : Prop :=
  ∃ fault w', m w = .error fault w'

theorem ensures_faults (m : Run α) (w : World) :
    Ensures m w fun r _ => (∃ fault, r = .error fault) ↔ m.Faults w := by
  unfold Ensures Faults
  cases m w <;> simp

instance (m : Run α) (w : World) : Decidable (m.Faults w) :=
  match h : m w with
  | .ok _ _ => isFalse (by simp [Faults, h])
  | .error fault w' => isTrue ⟨fault, w', h⟩

theorem Ensures.of_not_faults {m : Run α} {w : World} {Q : Except Fault α → World → Prop}
    (h : Ensures m w Q) (hm : ¬ m.Faults w) :
    ∃ a w', m w = .ok a w' ∧ Q (.ok a) w' := by
  unfold Ensures at h
  cases hrun : m w with
  | ok a w' =>
      rw [hrun] at h
      exact ⟨a, w', rfl, h⟩
  | error fault w' => exact absurd ⟨fault, w', hrun⟩ hm

/-- An operation that ensures a value returns it. -/
theorem Ensures.eq_ok {m : Run α} {w : World} {a : α} (h : Ensures m w fun r _ => r = .ok a) :
    ∃ w', m w = .ok a w' := by
  unfold Ensures at h
  cases hm : m w with
  | ok a' w' =>
      rw [hm] at h
      obtain rfl := Except.ok.inj h
      exact ⟨w', rfl⟩
  | error fault w' =>
      rw [hm] at h
      cases h

/-- The world that an operation leaves behind, whatever its outcome is. -/
def worldAfter (m : Run α) (w : World) : World :=
  match m w with
  | .ok _ w' | .error _ w' => w'

theorem Ensures.worldAfter {m : Run α} {w : World} {P : World → Prop}
    (h : Ensures m w fun _ w' => P w') :
    P (m.worldAfter w) := by
  unfold Ensures at h
  unfold Run.worldAfter
  cases hm : m w <;> simpa only [hm] using h

theorem ensures_worldAfter (m : Run α) (w : World) :
    Ensures m w fun _ w' => w' = m.worldAfter w := by
  unfold Ensures worldAfter
  cases m w <;> rfl

/-- An operation has one outcome and leads to one world. -/
theorem ensures_self (m : Run α) (w : World) :
    Ensures m w fun r w' => (Ensures m w fun r' _ => r' = r) ∧ w' = m.worldAfter w := by
  unfold Ensures worldAfter
  cases m w <;> exact ⟨rfl, rfl⟩

/-! ## Steps of a kind -/

section Follows

variable {R : World → World → Prop}

/-- Whatever its outcome is, the operation comes to a world by steps of the kind. -/
def Follows (R : World → World → Prop) (m : Run α) : Prop :=
  ∀ w, Ensures m w fun _ w' => Relation.ReflTransGen R w w'

theorem follows_pure (a : α) : Follows R (pure a) :=
  fun _ => .refl

theorem follows_throw (fault : Fault) : Follows R (throw fault : Run α) :=
  fun _ => .refl

theorem Follows.bind {m : Run α} {f : α → Run β} (hm : Follows R m)
    (hf : ∀ a, Follows R (f a)) :
    Follows R (m >>= f) := by
  intro w
  rw [ensures_bind]
  apply Ensures.mono (hm w)
  intro r w' hr
  cases r with
  | error fault => exact hr
  | ok a => exact Ensures.mono (hf a w') fun _ _ hr' => hr.trans hr'

theorem follows_getState_bind {f : State → Run β} (hf : ∀ s, Follows R (f s)) :
    Follows R (getState >>= f) :=
  Follows.bind (fun _ => .refl) hf

theorem Follows.ensuring {m : Run α} {after : Run Unit} (hm : Follows R m)
    (hafter : Follows R after) :
    Follows R (ensuring m after) := by
  intro w
  rw [ensures_ensuring]
  exact Ensures.mono (hm w) fun _ w' hr =>
    Ensures.mono (hafter w') fun _ _ hr' => hr.trans hr'

theorem Follows.attempt {m : Run α} (hm : Follows R m) :
    Follows R (attempt m) := by
  intro w
  rw [ensures_attempt]
  exact hm w

theorem Follows.onFault {m : Run α} {after : Run Unit} (hm : Follows R m)
    (hafter : Follows R after) :
    Follows R (onFault m after) := by
  intro w
  rw [ensures_onFault]
  apply Ensures.mono (hm w)
  intro r w' hr
  cases r with
  | ok a => exact hr
  | error fault => exact Ensures.mono (hafter w') fun _ _ hr' => hr.trans hr'

theorem Follows.guarding {lock : State → Lock} {set : Lock → State → State} {m : Run α}
    (hset : ∀ l, Follows R (modifyState (set l))) (hm : Follows R m) :
    Follows R (guarding lock set m) := by
  refine follows_getState_bind fun s => ?_
  split
  · exact follows_throw _
  · exact follows_throw _
  · refine (hset _).bind fun _ => hm.attempt.bind fun r => ?_
    cases r with
    | ok a => exact (hset _).bind fun _ => follows_pure a
    | error fault => exact (hset _).bind fun _ => follows_throw fault

theorem Follows.mapM {f : α → Run β} (hf : ∀ a, Follows R (f a)) (l : List α) :
    Follows R (l.mapM f) := by
  induction l with
  | nil => exact follows_pure []
  | cons a rest ih =>
      rw [List.mapM_cons]
      exact (hf a).bind fun _ => ih.bind fun _ => follows_pure _

theorem Follows.forM {f : α → Run Unit} {l : List α} (hf : ∀ a ∈ l, Follows R (f a)) :
    Follows R (l.forM f) := by
  induction l with
  | nil => exact follows_pure ()
  | cons a rest ih =>
      exact (hf a List.mem_cons_self).bind fun _ =>
        ih fun a' ha' => hf a' (List.mem_cons_of_mem a ha')

/-! ## Steps from worlds in order -/

variable {I : World → Prop} {Step : World → World → Prop} {w w' : World} {m : Run α}

/-- From a world in order, steps lead to the other one. -/
def StepsFrom (I : World → Prop) (Step : World → World → Prop) (w w' : World) : Prop :=
  I w → Relation.ReflTransGen Step w w'

theorem StepsFrom.of_all (h : Relation.ReflTransGen (StepsFrom I Step) w w')
    (hkept : ∀ w w', Step w w' → I w → I w') :
    StepsFrom I Step w w' := by
  intro hw
  induction h with
  | refl => exact .refl
  | tail _ hsteps ih => exact ih.trans (hsteps (kept_of_steps hkept ih hw))

theorem Follows.ensures_from (h : Follows (StepsFrom I Step) m)
    (hkept : ∀ w w', Step w w' → I w → I w') (hw : I w) :
    Ensures m w fun _ w' => Relation.ReflTransGen Step w w' :=
  Ensures.mono (h w) fun _ _ hr => StepsFrom.of_all hr hkept hw

/-- Only the worlds in order count. -/
theorem follows_from (h : ∀ w, I w → Ensures m w fun _ w' => Relation.ReflTransGen Step w w') :
    Follows (StepsFrom I Step) m := by
  intro w
  by_cases hw : I w
  · exact Ensures.mono (h w hw) fun _ _ hr => .single fun _ => hr
  · exact Ensures.mono (ensures_worldAfter m w) fun _ _ _ => .single fun h => absurd h hw

end Follows

end Run

end UsbTransfer
