import UsbTransfer.Proofs.Likeness
import UsbTransfer.Proofs.Orders
import UsbTransfer.Session.Transcript

/-!
# Two courses of events

Two courses of events are compared by a relation between their worlds, which has to hold on when
both worlds are changed alike and when alike occurrences are recorded.  A strict comparison lets
the worlds differ in what is on record and in nothing else; any other one leaves open what was
answered on a best-effort basis as well.  The rules below lead from the parts of an operation to
the whole, whatever is compared.
-/

namespace UsbTransfer

/-! ## Occurrences -/

/-- The answers to a direct request to reset toggles. -/
def Result.TellsReset : Result → Prop
  | .ok .done | .ok .nothing | .error (.failed _) => True
  | _ => False

/-- The command asks directly for toggles to be reset. -/
def Command.AsksReset : Command → Prop
  | .resetOnBus _ _ _ | .resetToggle _ => True
  | _ => False

/-- The results of a command are the same, unless it asks directly for toggles to be reset. -/
def Command.ResultsAlike (command : Command) (result result' : Result) : Prop :=
  result = result' ∨ (command.AsksReset ∧ result.TellsReset ∧ result'.TellsReset)

namespace Occurrence

/-- The same occurrence, up to what was answered on a best-effort basis. -/
inductive Alike : Occurrence → Occurrence → Prop where
  | same (o : Occurrence) : Alike o o
  | endpointFreed (e : Key Endpoint) (reply reply' : FarewellReply) :
      Alike (.endpointFreed e reply) (.endpointFreed e reply')
  | batchReleased (b : Key Batch) (reply reply' : FarewellReply) :
      Alike (.batchReleased b reply) (.batchReleased b reply')
  | stepEnded {result result' : Result} (h : result.TellsReset) (h' : result'.TellsReset) :
      Alike (.stepEnded result) (.stepEnded result')

/-- The occurrence is nothing but a message in the log about an answer. -/
def isRemark : Occurrence → Bool
  | .resetFailed _ _ | .handlerFailed _ _ => true
  | _ => false

end Occurrence

/-! ## Comparisons -/

/-- What stands for a value in another course of events is related to it, and it is the same value
where the comparison is strict. -/
structure Like (strict : Prop) {α : Type} (R : α → α → Prop) (a a' : α) : Prop where
  alike : R a a'
  same : strict → a' = a

namespace Like

variable {strict : Prop} {α β : Type} {R : α → α → Prop} {S : β → β → Prop} {a a' : α}

theorem refl (hR : R a a) : Like strict R a a :=
  ⟨hR, fun _ => rfl⟩

/-- What is made of like values in the same way. -/
theorem map (h : Like strict R a a') (f : α → β) (hf : R a a' → S (f a) (f a')) :
    Like strict S (f a) (f a') :=
  ⟨hf h.alike, fun hstrict => congrArg f (h.same hstrict)⟩

theorem of_some (h : Like strict (Option.Rel R) (some a) (some a')) : Like strict R a a' := by
  obtain ⟨hrel, hsame⟩ := h
  cases hrel with
  | some hR => exact ⟨hR, fun hstrict => Option.some.inj (hsame hstrict)⟩

theorem forall₂ {l l' : List α} (h : Like strict (List.Forall₂ R) l l') :
    List.Forall₂ (Like strict R) l l' := by
  obtain ⟨hall, hsame⟩ := h
  induction hall with
  | nil => exact .nil
  | cons hR _ ih =>
      refine .cons ⟨hR, fun hstrict => ?_⟩ (ih fun hstrict => ?_)
      · exact (List.cons.inj (hsame hstrict)).1
      · exact (List.cons.inj (hsame hstrict)).2

end Like

/-- The states of two courses of events.  Where nothing may differ, names are in order. -/
structure State.Like (strict : Prop) (s s' : State) : Prop extends s.Alike s' where
  same : strict → s' = s
  ordered : strict → s.Ordered

/-- What is read in like states. -/
theorem State.Like.read {strict : Prop} {s s' : State} (h : s.Like strict s') {α : Type}
    {R : α → α → Prop} (f : State → α) (hf : R (f s) (f s')) :
    UsbTransfer.Like strict R (f s) (f s') :=
  ⟨hf, fun hstrict => congrArg f (h.same hstrict)⟩

/-- Two changes that lead from alike states to alike states, and leave names in order. -/
structure State.Edits (strict : Prop) (f f' : State → State) : Prop where
  alike : ∀ s s', s.Alike s' → (f s).Alike (f' s')
  same : strict → f' = f
  ordered : strict → ∀ s, s.Ordered → (f s).Ordered

/-- A way to compare the worlds of two courses of events. -/
structure Comparison where
  /-- Whether nothing may differ but what is on record. -/
  strict : Prop
  worlds : World → World → Prop
  state : ∀ {w w'}, worlds w w' → w.state.Like strict w'.state
  alter : ∀ {w w'} {f f' : State → State}, worlds w w' → State.Edits strict f f' →
    worlds (w.alter f) (w'.alter f')
  note : ∀ {w w'} {o o' : Occurrence}, worlds w w' → Like strict Occurrence.Alike o o' →
    worlds (w.note o) (w'.note o')
  /-- What one course remarks in the log, the other one may leave out. -/
  remark : ∀ {w w'} {o : Occurrence}, ¬ strict → worlds w w' → o.isRemark = true →
    worlds (w.note o) w' ∧ worlds w (w'.note o)

/-! ## Outcomes -/

namespace Run

variable {α α' β β' : Type}

/-- Two operations came to related values or to the same fault, in related worlds. -/
inductive EndRelated (W : World → World → Prop) (R : α → α' → Prop) :
    EStateM.Result Fault World α → EStateM.Result Fault World α' → Prop where
  | ok {a : α} {a' : α'} {w w' : World} (ha : R a a') (hw : W w w') :
      EndRelated W R (.ok a w) (.ok a' w')
  | error (fault : Fault) {w w' : World} (hw : W w w') :
      EndRelated W R (.error fault w) (.error fault w')

/-- From related worlds two operations come to related outcomes. -/
def Related (W : World → World → Prop) (R : α → α' → Prop) (m : Run α) (m' : Run α') : Prop :=
  ∀ w w', W w w' → EndRelated W R (m w) (m' w')

variable {W : World → World → Prop} {R : α → α' → Prop} {S : β → β' → Prop} {m : Run α}
  {m' : Run α'}

theorem Related.mono {R' : α → α' → Prop} (h : Related W R m m')
    (hR : ∀ a a', R a a' → R' a a') :
    Related W R' m m' := by
  intro w w' hw
  have hend := h w w' hw
  generalize m w = r, m' w' = r' at hend ⊢
  cases hend with
  | ok ha hw => exact .ok (hR _ _ ha) hw
  | error fault hw => exact .error fault hw

theorem related_pure {a : α} {a' : α'} (ha : R a a') : Related W R (pure a) (pure a') :=
  fun _ _ hw => .ok ha hw

theorem related_throw (fault : Fault) : Related W R (throw fault) (throw fault) :=
  fun _ _ hw => .error fault hw

theorem Related.bind {f : α → Run β} {f' : α' → Run β'} (hm : Related W R m m')
    (hf : ∀ a a', R a a' → Related W S (f a) (f' a')) :
    Related W S (m >>= f) (m' >>= f') := by
  intro w w' hw
  have h := hm w w' hw
  change EndRelated W S (EStateM.bind m f w) (EStateM.bind m' f' w')
  unfold EStateM.bind
  generalize m w = r, m' w' = r' at h ⊢
  cases h with
  | ok ha hw => exact hf _ _ ha _ _ hw
  | error fault hw => exact .error fault hw

/-- The outcomes of two operations, as values. -/
inductive Settled (R : α → α' → Prop) : Except Fault α → Except Fault α' → Prop where
  | ok {a : α} {a' : α'} (ha : R a a') : Settled R (.ok a) (.ok a')
  | error (fault : Fault) : Settled R (.error fault) (.error fault)

theorem Related.attempt (hm : Related W R m m') :
    Related W (Settled R) (attempt m) (attempt m') := by
  intro w w' hw
  have h := hm w w' hw
  unfold Run.attempt
  generalize m w = r, m' w' = r' at h ⊢
  cases h with
  | ok ha hw => exact .ok (.ok ha) hw
  | error fault hw => exact .ok (.error fault) hw

/-- What is done in the end, whatever came before it. -/
theorem Related.ensuring {after after' : Run Unit} (hm : Related W R m m')
    (hafter : Related W Eq after after') :
    Related W R (ensuring m after) (ensuring m' after') := by
  refine hm.attempt.bind fun r r' hr => ?_
  cases hr with
  | ok ha => exact hafter.bind fun _ _ _ => related_pure ha
  | error fault => exact hafter.attempt.bind fun _ _ _ => related_throw fault

theorem Related.onFault {after after' : Run Unit} (hm : Related W R m m')
    (hafter : Related W Eq after after') :
    Related W R (onFault m after) (onFault m' after') := by
  refine hm.attempt.bind fun r r' hr => ?_
  cases hr with
  | ok ha => exact related_pure ha
  | error fault => exact hafter.attempt.bind fun _ _ _ => related_throw fault

/-- What the second operation comes to, beside the first one. -/
theorem Related.ensures {m m' : Run α} {w w' : World} (h : Related W Eq m m') (hw : W w w') :
    Ensures m w fun r w₁ => Ensures m' w' fun r' w₁' => r' = r ∧ W w₁ w₁' := by
  have hend := h w w' hw
  unfold Ensures
  generalize m w = r, m' w' = r' at hend ⊢
  cases hend with
  | ok ha hw => exact ⟨congrArg _ ha.symm, hw⟩
  | error fault hw => exact ⟨rfl, hw⟩

/-- The operation does nothing, or it remarks something in the log. -/
def Remarks (m : Run Unit) : Prop :=
  m = pure () ∨ ∃ o, m = record o ∧ o.isRemark = true

end Run

namespace Comparison

open Run

variable {α β β' : Type}

/-- In the worlds that are compared two operations come to like values. -/
abbrev Alike (C : Comparison) (R : α → α → Prop) (m m' : Run α) : Prop :=
  Related C.worlds (Like C.strict R) m m'

/-- In the worlds that are compared two operations come to the same value. -/
abbrev Agree (C : Comparison) (m m' : Run α) : Prop :=
  Related C.worlds Eq m m'

variable {C : Comparison} {R : α → α → Prop} {S : β → β' → Prop} {m m' : Run α}

theorem agree_pure (a : α) : C.Agree (pure a) (pure a) :=
  related_pure rfl

theorem Agree.bind {f : α → Run β} {f' : α → Run β'}
    (hm : C.Agree m m') (hf : ∀ a, Related C.worlds S (f a) (f' a)) :
    Related C.worlds S (m >>= f) (m' >>= f') :=
  Related.bind hm fun a _ ha => ha ▸ hf a

theorem getState_bind {f : State → Run β} {f' : State → Run β'}
    (hf : ∀ s s', s.Like C.strict s' → Related C.worlds S (f s) (f' s')) :
    Related C.worlds S (getState >>= f) (getState >>= f') :=
  Related.bind (fun _ _ hw => .ok (C.state hw) hw) hf

theorem agree_edits {f f' : State → State} (hf : State.Edits C.strict f f') :
    C.Agree (modifyState f) (modifyState f') :=
  fun _ _ hw => .ok rfl (C.alter hw hf)

/-- The same change in both states, which leaves the names of batches in order. -/
theorem agree_modifyState {f : State → State} (hf : ∀ s s', s.Alike s' → (f s).Alike (f s'))
    (hordered : ∀ s, s.Ordered → (f s).Ordered) :
    C.Agree (modifyState f) (modifyState f) :=
  agree_edits ⟨hf, fun _ => rfl, fun _ => hordered⟩

theorem agree_record_of {o o' : Occurrence} (ho : Like C.strict Occurrence.Alike o o') :
    C.Agree (record o) (record o') :=
  fun _ _ hw => .ok rfl (C.note hw ho)

theorem agree_record (o : Occurrence) : C.Agree (record o) (record o) :=
  agree_record_of (.refl (.same o))

/-- A remark in the log makes no difference, where it may differ. -/
theorem agree_remark {m m' : Run Unit} (hm : Remarks m) (hm' : Remarks m')
    (hsame : C.strict → m' = m) :
    C.Agree m m' := by
  by_cases hstrict : C.strict
  · obtain rfl := hsame hstrict
    rcases hm with rfl | ⟨o, rfl, -⟩
    · exact agree_pure ()
    · exact agree_record o
  · intro w w' hw
    rcases hm with rfl | ⟨o, rfl, ho⟩ <;> rcases hm' with rfl | ⟨o', rfl, ho'⟩
    · exact .ok rfl hw
    · exact .ok rfl (C.remark hstrict hw ho').2
    · exact .ok rfl (C.remark hstrict hw ho).1
    · exact .ok rfl (C.remark hstrict (C.remark hstrict hw ho).1 ho').2

theorem guarding {lock : State → Lock} {set : Lock → State → State}
    (hlock : ∀ s s', s.Alike s' → lock s' = lock s)
    (hset : ∀ l s s', s.Alike s' → (set l s).Alike (set l s'))
    (hordered : ∀ l s, s.Ordered → (set l s).Ordered) (hm : Related C.worlds R m m') :
    Related C.worlds R (guarding lock set m) (guarding lock set m') := by
  have hlocking : ∀ l, C.Agree (modifyState (set l)) (modifyState (set l)) :=
    fun l => agree_modifyState (hset l) (hordered l)
  refine getState_bind fun s s' hs => ?_
  rw [hlock s s' hs.toAlike]
  split
  · exact related_throw _
  · exact related_throw _
  · refine (hlocking .held).bind fun _ => hm.attempt.bind fun r r' hr => ?_
    cases hr with
    | ok ha => exact (hlocking .free).bind fun _ => related_pure ha
    | error fault => exact (hlocking .poisoned).bind fun _ => related_throw fault

theorem agree_mapM {f f' : α → Run β} (hf : ∀ a, C.Agree (f a) (f' a)) (l : List α) :
    C.Agree (l.mapM f) (l.mapM f') := by
  induction l with
  | nil => exact agree_pure []
  | cons a rest ih =>
      rw [List.mapM_cons, List.mapM_cons]
      exact (hf a).bind fun _ => ih.bind fun _ => agree_pure _

/-- What is done for the members of two lists in turn. -/
theorem agree_forM {f f' : α → Run Unit} {l l' : List α} (hl : List.Forall₂ R l l')
    (hf : ∀ a a', R a a' → C.Agree (f a) (f' a')) :
    C.Agree (l.forM f) (l'.forM f') := by
  induction hl with
  | nil => exact agree_pure ()
  | cons ha _ ih => exact (hf _ _ ha).bind fun _ => ih

end Comparison
end UsbTransfer
