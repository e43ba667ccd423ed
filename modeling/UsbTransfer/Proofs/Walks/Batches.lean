import UsbTransfer.Session.CarryOut
import UsbTransfer.Proofs.Endings
import UsbTransfer.Proofs.Walks.Library

/-!
# Walks through the lives of batches

What batches do with their endpoints and handlers is listed like what the library does.  The values
that are attached to them are left to each account, which may follow them or not.  Given that, all
batches are created, used and ended by steps of the account.
-/

namespace UsbTransfer

open Run

/-! ## Steps -/

/-- What batches do at once, apart from their values. -/
inductive BatchStep (A : Repertoire) (w : World) : World → Prop where
  /-- Batches are named otherwise. -/
  | rename (f : Names (Key Batch) → Names (Key Batch)) :
      BatchStep A w (w.alter (·.setDirectory fun d => { d with batches := f d.batches }))
  | edit (b : Key Batch) (t : Transfer) : BatchStep A w (w.alter (·.setTransfer b t))
  | farewell (bus : Key Bus) (b : Key Batch) : BatchStep A w (w.called bus (.batchFarewell bus b))
  | giveUp {b : Key Batch} {e : Key Endpoint} (he : (w.state.batches.get b).endpoint = some e) :
      BatchStep A w ((w.alter (·.detachEndpoint b)).note (.endpointGivenUp b e))
  | detach (b : Key Batch) : BatchStep A w (w.alter (·.detachHandler b))
  | attach (b : Key Batch) {action : HandlerAction} (captured : List (Key Endpoint))
      (noisy : Bool) (hplays : A.PlaysAny action.code?) :
      BatchStep A w
        ((w.alter (·.attachHandler b action captured noisy)).note
          (.handlerAttached b w.state.serial))
  | invoke (b : Key Batch) (n : Nat) (name : String) (c : Completion) :
      BatchStep A w (w.note (.handlerInvoked b n (some name) c))
  /-- The handler of a batch is invoked and passes the completion on. -/
  | pass {b : Key Batch} {handler : Handler} {q : Key Queue} (t : Transfer) (c : Completion)
      (hhandler : (w.state.batches.get b).handler = some handler)
      (haction : handler.action = .forward q) :
      BatchStep A w
        (((w.alter fun s => (s.detachHandler b).setTransfer b t).note
          (.handlerInvoked b handler.serial none c)).arrived q c)
  /-- A handler that should pass a completion on finds the queue locked. -/
  | stick {q : Key Queue} (b : Key Batch) (n : Nat) (c : Completion)
      (htaken : (w.state.queues.get q).lock ≠ .free) :
      BatchStep A w (w.note (.handlerInvoked b n none c))
  | perish (b : Key Batch) (n : Nat) (lastWords : Option String) :
      BatchStep A w (w.note (.handlerDestroyed b n lastWords))
  | finish (b : Key Batch) : BatchStep A w (w.note (.batchEnded b))

/-- What is done with the value of a batch, for who does not follow it. -/
inductive DataStep (b : Key Batch) (w : World) : World → Prop where
  | detach : DataStep b w (w.alter (·.detachData b))
  | attach (value : DataValue) : DataStep b w (w.alter (·.attachData b value))
  | replace (data : Option Attachment) :
      DataStep b w
        (w.alter fun s => { s with
          batches := s.batches.modify b fun batch => { batch with data := data } })
  | noteAttached (n : Nat) : DataStep b w (w.note (.dataAttached b n))
  | noteTaken (n : Nat) : DataStep b w (w.note (.dataTaken b n))
  | noteDestroyed (n : Nat) (lastWords : Option String) :
      DataStep b w (w.note (.dataDestroyed b n lastWords))

/-- A batch came into being. -/
def World.built (w : World) (e : Key Endpoint) : World :=
  (w.alter (·.addBatch e)).note (.batchBuilt w.state.batches.nextKey e)

variable {R : World → World → Prop} {A : Repertoire} {P : ToggleEvent → Prop} {play : Player}
  {b : Key Batch}

/-- The steps of batches go by steps of the relation too, and so do the scripts that have a batch
at hand. -/
structure BatchWalk (R : World → World → Prop) (A : Repertoire) (P : ToggleEvent → Prop)
    (play : Player) : Prop extends LibraryWalk R A P play where
  batchStep : ∀ {w w'}, BatchStep A w w' → Relation.ReflTransGen R w w'
  runHaving : ∀ {b code}, A.PlaysAny code → Follows R (play.run (some b) code)

namespace BatchWalk

/-! ## Names and plain data -/

theorem rename (h : BatchWalk R A P play) (f : Names (Key Batch) → Names (Key Batch)) :
    Follows R (Session.modifyDirectory fun d => { d with batches := f d.batches }) :=
  fun _ => h.batchStep (.rename f)

theorem modifyTransfer (h : BatchWalk R A P play) (b : Key Batch) (f : Transfer → Transfer) :
    Follows R (Batch.modifyTransfer b f) :=
  fun w => (Batch.ensures_modifyTransfer b f w _).mpr (h.batchStep (.edit b _))

/-! ## Handlers -/

theorem destroyHandler (h : BatchWalk R A P play) (b : Key Batch) (handler : Handler) :
    Follows R (handler.destroy play b) :=
  (h.releaseAll handler.captured).ensuring fun _ => h.batchStep (.perish b _ _)

theorem takeHandler (h : BatchWalk R A P play) (b : Key Batch) :
    Follows R (Batch.takeHandler? b) := by
  intro w
  rw [Batch.ensures_takeHandler?]
  split
  · exact .refl
  · exact h.batchStep (.detach b)

theorem attachHandler (h : BatchWalk R A P play) (b : Key Batch) {action : HandlerAction}
    (captured : List (Key Endpoint)) (noisy : Bool) (hplays : A.PlaysAny action.code?) :
    Follows R (Batch.attachHandler play b action captured noisy) := by
  refine (h.takeHandler b).bind fun replaced? => fun w => ?_
  simp only [ensures_bind, ensures_getState, ensures_modifyState, ensures_record, then_ok]
  refine LibraryWalk.after ?_ (h.batchStep (.attach b captured noisy hplays))
  cases replaced? with
  | none => exact follows_pure ()
  | some replaced => exact h.destroyHandler b replaced

/-- The handler of a batch is invoked when it left the batch and the buffer with it. -/
theorem invoke (h : BatchWalk R A P play) {w : World} (hw : A.Knows w.state) {handler : Handler}
    (hhandler : (w.state.batches.get b).handler = some handler) (t : Transfer) (c : Completion) :
    Ensures (handler.invoke play b c)
      (w.alter fun s => (s.detachHandler b).setTransfer b t) fun _ w' =>
        Relation.ReflTransGen R w w' := by
  have hgiven : Relation.ReflTransGen R w (w.alter fun s => (s.detachHandler b).setTransfer b t) :=
    (h.batchStep (.detach b)).trans (h.batchStep (.edit b t))
  have hdestroy := h.destroyHandler b handler
  unfold Handler.invoke Handler.name?
  cases haction : handler.action with
  | run name code reply =>
      have hcode : A.PlaysAny code := by
        have hknown := hw.handlers b handler hhandler
        rwa [haction] at hknown
      refine LibraryWalk.after (Follows.bind (fun _ => h.batchStep (.invoke b _ name c)) fun _ =>
        Follows.ensuring ?_ hdestroy) hgiven
      exact (h.run hcode).bind fun _ => follows_pure _
  | forward q =>
      simp only [ensures_bind, ensures_record, then_ok, ensures_ensuring]
      refine Ensures.mono (Q := fun _ w' => Relation.ReflTransGen R w w') ?_ fun r w' hr => ?_
      · by_cases hfree : (w.state.queues.get q).lock = .free
        · have hpass := h.batchStep (.pass t c hhandler haction)
          refine Queue.ensures_push_arrived hfree (fun _ => hpass) fun waker hwaker => ?_
          exact LibraryWalk.after (h.run (hw.queues q waker hwaker)) hpass
        · exact Queue.ensures_push_of_taken hfree fun _ =>
            hgiven.trans (h.batchStep (.stick b _ c hfree))
      · -- whatever the push comes to, the handler is destroyed then
        cases r <;> exact LibraryWalk.after hdestroy hr

theorem deliver (h : BatchWalk R A P play) (b : Key Batch) : Follows R (Batch.deliver play b) := by
  refine h.known fun w hw => ?_
  unfold Batch.deliver
  rw [ensures_bind, Batch.ensures_takeHandler?]
  cases hhandler : (w.state.batches.get b).handler with
  | none => exact .refl
  | some handler =>
      simp only [then_ok, ensures_bind, ensures_getState, Batch.ensures_modifyTransfer]
      refine Ensures.mono (h.invoke hw hhandler _ _) fun r w' hr => ?_
      cases r with
      | error fault => exact hr
      | ok error? =>
          refine LibraryWalk.after ?_ hr
          cases error? with
          | none => exact follows_pure ()
          | some error => exact h.record trivial

/-! ## Release -/

theorem batchFarewell (h : BatchWalk R A P play) (bus : Key Bus) (b : Key Batch) :
    Follows R (Bus.batchFarewell play bus b) := by
  refine h.called (fun _ => h.batchStep (.farewell bus b)) (fun _ => rfl) ?_ (follows_pure _)
    fun hook hcode => ?_
  · exact fun plan script hscript => BusPlan.mem_scripts.mpr (.inr (.inl hscript))
  · exact (h.runHaving hcode).bind fun _ => follows_pure _

theorem releaseBatch (h : BatchWalk R A P play) (b : Key Batch) :
    Follows R (Batch.release play b) := by
  intro w
  unfold Batch.release
  rw [ensures_bind, ensures_getState, then_ok]
  split
  · exact .refl
  · next e he =>
      simp only [ensures_bind, ensures_modifyState, ensures_record, then_ok]
      rw [← ensures_bind]
      refine LibraryWalk.after ?_ (h.batchStep (.giveUp he))
      exact (h.release e).bind fun _ => (h.batchFarewell _ b).bind fun _ => h.record trivial

theorem recordEnd (h : BatchWalk R A P play) (b : Key Batch) :
    Follows R (Run.record (.batchEnded b)) :=
  fun _ => h.batchStep (.finish b)

end BatchWalk

/-! ## Values -/

namespace LibraryWalk

section Unfollowed

variable (hdata : ∀ {w w'}, DataStep b w w' → Relation.ReflTransGen R w w')

include hdata

theorem destroyData (h : LibraryWalk R A P play) (a : Attachment) :
    Follows R (a.destroy play b) :=
  (h.releaseAll a.value.captured).ensuring fun _ => hdata (.noteDestroyed _ _)

theorem takeData? : Follows R (Batch.takeData? b) := by
  intro w
  rw [Batch.ensures_takeData?]
  split
  · exact .refl
  · exact hdata .detach

theorem takeDataOf? (type : DataType) : Follows R (Batch.takeDataOf? b type) := by
  refine follows_getState_bind fun s => ?_
  split
  · exact follows_pure _
  · split
    · exact (takeData? hdata).bind fun _ => Follows.bind (fun _ => hdata (.noteTaken _))
        fun _ => follows_pure _
    · exact follows_pure _

theorem attachData (h : LibraryWalk R A P play) (value : DataValue) :
    Follows R (Batch.attachData play b value) := by
  refine (takeData? hdata).bind fun replaced? => follows_getState_bind fun s => ?_
  refine Follows.bind (fun _ => hdata (.attach value)) fun _ => ?_
  refine Follows.bind (fun _ => hdata (.noteAttached _)) fun _ => ?_
  cases replaced? with
  | none => exact follows_pure ()
  | some replaced => exact h.destroyData hdata replaced

theorem changeData (change : DataChange) : Follows R (Session.changeData b change) := by
  refine follows_getState_bind fun s => ?_
  split
  · exact follows_pure _
  · split
    · exact follows_pure _
    · exact Follows.bind (fun _ => hdata (.replace _)) fun _ => follows_pure _

theorem takeData (h : LibraryWalk R A P play) (type : DataType) (keep : Option String) :
    Follows R (Session.takeData play b type keep) := by
  refine (takeDataOf? hdata type).bind fun taken? => ?_
  cases taken? with
  | none => exact follows_pure _
  | some a =>
      obtain ⟨serial, value⟩ := a
      cases value with
      | handle e =>
          exact follows_getState_bind fun s => (h.keepOrRelease keep e).bind fun _ =>
            follows_pure _
      | number | text | noisy =>
          exact follows_getState_bind fun s => (h.destroyData hdata _).bind fun _ =>
            follows_pure _

end Unfollowed

end LibraryWalk

/-- Besides, batches come into being, have values and end by steps of the relation. -/
structure SessionWalk (R : World → World → Prop) (A : Repertoire) (P : ToggleEvent → Prop)
    (play : Player) : Prop extends BatchWalk R A P play where
  build : ∀ e, Follows R (Batch.build e)
  attachData : ∀ b value, Follows R (Batch.attachData play b value)
  changeData : ∀ b change, Follows R (Session.changeData b change)
  takeData : ∀ b type keep, Follows R (Session.takeData play b type keep)
  endAfter : ∀ b {body}, Follows R body → Follows R (Batch.endAfter play b body)

namespace BatchWalk

theorem destroyBelongings (h : BatchWalk R A P play)
    (hdata : ∀ {w w'}, DataStep b w w' → Relation.ReflTransGen R w w') :
    Follows R (Batch.destroyBelongings play b) := by
  refine Follows.ensuring ((h.takeHandler b).bind fun handler? => ?_)
    ((LibraryWalk.takeData? hdata).bind fun attachment? => ?_)
  · cases handler? with
    | none => exact follows_pure ()
    | some handler => exact h.destroyHandler b handler
  · cases attachment? with
    | none => exact follows_pure ()
    | some a => exact h.toLibraryWalk.destroyData hdata a

/-- Whoever does not follow the values of batches has nothing more to tell of them. -/
theorem session (h : BatchWalk R A P play)
    (hbuild : ∀ {w : World} {e}, Relation.ReflTransGen R w (w.built e))
    (hdata : ∀ {b w w'}, DataStep b w w' → Relation.ReflTransGen R w w') :
    SessionWalk R A P play where
  toBatchWalk := h
  build := by
    refine fun e => (h.acquire e).bind fun _ => fun w => ?_
    simp only [ensures_bind, ensures_getState, ensures_modifyState, ensures_record, then_ok]
    exact hbuild
  attachData := fun _ => h.toLibraryWalk.attachData hdata
  changeData := fun _ => LibraryWalk.changeData hdata
  takeData := fun _ => h.toLibraryWalk.takeData hdata
  endAfter := by
    exact fun b body hbody => (hbody.ensuring (h.releaseBatch b)).ensuring
      ((h.destroyBelongings hdata).ensuring (h.recordEnd b))

end BatchWalk

/-! ## Ends and beginnings -/

namespace SessionWalk

/-- What a batch that finishes does once it has asked for the reset of toggles. -/
theorem afterReset (h : SessionWalk R A P play) (b : Key Batch) (outcome : Except UsbError Unit) :
    Follows R (do
      match outcome with
      | .ok () => pure ()
      | .error error => record (.resetFailed b error)
      Batch.deliver play b
      Batch.release play b) := by
  have hrest : Follows R (do
      Batch.deliver play b
      Batch.release play b) :=
    (h.deliver b).bind fun _ => h.releaseBatch b
  cases outcome with
  | ok _ => exact hrest
  | error error => exact Follows.bind (h.record trivial) fun _ => hrest

theorem finish (h : SessionWalk R A P play) (hkind : ∀ t es, P (.reset t es)) (b : Key Batch) :
    Follows R (Batch.finish play b) :=
  h.endAfter b (Follows.bind (h.record trivial) fun _ =>
    (h.resetOfBatch hkind b).bind fun outcome => h.afterReset b outcome)

theorem abort (h : SessionWalk R A P play) (hkind : ∀ t es, P (.reset t es)) (b : Key Batch) :
    Follows R (Batch.abort play b) :=
  (h.modifyTransfer b _).bind fun _ => h.finish hkind b

theorem destroy (h : SessionWalk R A P play) (b : Key Batch) : Follows R (Batch.destroy play b) :=
  h.endAfter b (h.releaseBatch b)

theorem drop (h : SessionWalk R A P play) (b : Key Batch) : Follows R (Batch.drop play b) :=
  h.endAfter b (follows_pure ())

theorem ending (h : SessionWalk R A P play) (hkind : ∀ t es, P (.reset t es)) (b : Key Batch)
    (ending : Batch.Ending) :
    Follows R (ending.run play b) := by
  cases ending with
  | finish => exact h.finish hkind b
  | abort => exact h.abort hkind b
  | destroy => exact h.destroy b
  | drop => exact h.drop b

theorem buildBatch (h : SessionWalk R A P play) (bus : Key Bus) (e : Key Endpoint) :
    Follows R (Bus.buildBatch play bus e) := by
  refine h.called (fun _ => h.step (.call rfl (by simp))) (fun _ => rfl) ?_ (follows_pure _)
    fun hook hcode => ?_
  · exact fun plan script hscript => BusPlan.mem_scripts.mpr (.inl hscript)
  · obtain ⟨code, reply⟩ := hook
    cases reply with
    | declined => exact (h.run hcode).bind fun _ => follows_pure _
    | failed error => exact (h.run hcode).bind fun _ => follows_pure _
    | built on =>
        refine follows_getState_bind fun s => (h.build _).bind fun b => ?_
        exact Follows.bind ((h.runHaving hcode).onFault (h.drop b)) fun _ => follows_pure _

theorem create (h : SessionWalk R A P play) (e : Key Endpoint) :
    Follows R (Batch.create play e) := by
  refine follows_getState_bind fun s => (h.buildBatch _ e).bind fun answer? => ?_
  cases answer? with
  | none =>
      exact (h.build e).bind fun _ => Follows.bind (h.record trivial) fun _ => follows_pure _
  | some answer =>
      cases answer with
      | error error => exact follows_pure _
      | ok b => exact Follows.bind (h.record trivial) fun _ => follows_pure _

end SessionWalk

end UsbTransfer
