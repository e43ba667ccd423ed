import UsbTransfer.Proofs.Endings

/-!
# Bystanders of an end

Apart from the batch itself, an end changes nothing that user code can use: tables, queues, names
and other batches are as user code left them that ran on the way, and a completion may have been
passed on to a queue.  This holds of every end, whatever state it starts in and however it is
interrupted.
-/

namespace UsbTransfer

open Run

/-- All that user code can use is the same, one batch apart.  Endpoints and buses may differ. -/
structure State.SameBut (b : Key Batch) (s s' : State) : Prop where
  tables : s'.tables = s.tables
  queues : s'.queues = s.queues
  directory : s'.directory = s.directory
  batches : ∀ b', b' ≠ b → s'.batches.get b' = s.batches.get b'

namespace State.SameBut

variable {s s' s'' : State} {b : Key Batch}

theorem refl (s : State) (b : Key Batch) : s.SameBut b s :=
  ⟨rfl, rfl, rfl, fun _ _ => rfl⟩

theorem trans (h : SameBut b s s') (h' : SameBut b s' s'') : SameBut b s s'' where
  tables := h'.tables.trans h.tables
  queues := h'.queues.trans h.queues
  directory := h'.directory.trans h.directory
  batches := fun b' hb' => (h'.batches b' hb').trans (h.batches b' hb')

end State.SameBut

/-- One thing that happens while a batch ends: user code runs, a completion is appended to a queue
and takes the waker out, or nothing happens that user code could notice but for the batch, its
endpoints and their buses. -/
inductive Batch.EndStep (play : Player) (b : Key Batch) (w : World) : World → Prop where
  | played (atHand : Option (Key Batch)) (script : Script) :
      EndStep play b w ((play atHand script).worldAfter w)
  | pushed {w' : World} (q : Key Queue) (c : Completion)
      (htables : w'.state.tables = w.state.tables)
      (hqueues : w'.state.queues = w.state.queues.modify q fun queue =>
        { queue with pending := queue.pending ++ [c], waker := none })
      (hdirectory : w'.state.directory = w.state.directory)
      (hbatches : w'.state.batches = w.state.batches) :
      EndStep play b w w'
  | quiet {w' : World} (hsame : w.state.SameBut b w'.state) :
      EndStep play b w w'

variable {play : Player} {b : Key Batch}

/-! ## Quiet operations -/

theorem follows_record (o : Occurrence) : Follows (Batch.EndStep play b) (record o) :=
  fun w => .single (.quiet (.refl w.state b))

/-- A change of the state that keeps all that others can use. -/
theorem follows_modifyState {f : State → State} (hf : ∀ s : State, s.SameBut b (f s)) :
    Follows (Batch.EndStep play b) (modifyState f) :=
  fun w => .single (.quiet (hf w.state))

theorem follows_run (atHand : Option (Key Batch)) (script : Option Script) :
    Follows (Batch.EndStep play b) (play.run atHand script) := by
  cases script with
  | none => exact follows_pure ()
  | some script =>
      intro w
      apply Ensures.mono (ensures_worldAfter (play atHand script) w)
      intro _ w' hw'
      subst hw'
      exact .single (.played atHand script)

theorem follows_nextHook {α : Type} (bus : Key Bus) (schedule : BusPlan Script → Schedule α)
    (used : BusPlan Script → BusPlan Script) :
    Follows (Batch.EndStep play b) (Bus.nextHook bus schedule used) := by
  refine follows_getState_bind fun s => ?_
  refine Follows.bind (follows_modifyState fun s => ⟨rfl, rfl, rfl, fun _ _ => rfl⟩) fun _ => ?_
  exact follows_pure _

namespace Endpoint

theorem follows_release (e : Key Endpoint) :
    Follows (Batch.EndStep play b) (release play e) := by
  refine follows_getState_bind fun s => ?_
  split
  · exact follows_throw _
  · refine Follows.bind (follows_modifyState fun s => ⟨rfl, rfl, rfl, fun _ _ => rfl⟩) fun _ => ?_
    refine Follows.bind (follows_record _) fun _ => ?_
    split
    · refine follows_getState_bind fun s => Follows.bind ?_ fun _ => follows_record _
      refine Follows.bind (follows_nextHook _ _ _) fun hook? => ?_
      refine Follows.bind (follows_record _) fun _ => ?_
      cases hook? with
      | none => exact follows_pure _
      | some hook => exact Follows.bind (follows_run none hook.code) fun _ => follows_pure _
    · exact follows_pure ()

theorem follows_releaseAll (es : List (Key Endpoint)) :
    Follows (Batch.EndStep play b) (releaseAll play es) := by
  induction es with
  | nil => exact follows_pure ()
  | cons e rest ih => exact (follows_release e).ensuring ih

end Endpoint

namespace Table

/-- Toggles are no part of a table. -/
theorem ensures_forM_setToggle (es : List (Key Endpoint)) (w : World) :
    Ensures (es.forM fun e => Endpoint.setToggle e false) w fun r w' =>
      r = .ok () ∧ w.state.SameBut b w'.state := by
  induction es generalizing w with
  | nil => exact ⟨rfl, .refl w.state b⟩
  | cons e rest ih =>
      change Ensures (Endpoint.setToggle e false >>= fun _ =>
        rest.forM fun e => Endpoint.setToggle e false) _ _
      simp only [ensures_bind, Endpoint.ensures_setToggle, then_ok]
      refine Ensures.mono (ih _) fun r w' hr => ⟨hr.1, State.SameBut.trans ?_ hr.2⟩
      exact ⟨rfl, rfl, rfl, fun _ _ => rfl⟩

theorem follows_resetToggles (t : Key Table) (target : Target) (scope : ResetScope) :
    Follows (Batch.EndStep play b) (resetToggles t target scope) := by
  intro w
  unfold resetToggles locking
  cases hlock : (w.state.tables.get t).lock with
  | held | poisoned =>
      unfold guarding
      simp only [ensures_bind, ensures_getState, then_ok, hlock, ensures_throw]
      exact .refl
  | free =>
      rw [ensures_guarding hlock]
      simp only [ensures_bind, ensures_getState, then_ok]
      apply Ensures.mono (ensures_forM_setToggle (b := b) _ _)
      intro r w' hr
      obtain ⟨rfl, hsame⟩ := hr
      simp only [then_ok, ensures_bind, ensures_record, ensures_pure]
      have hunlocked := congrArg State.tables (State.unlockTable (s := w.state) (t := t) hlock)
      refine .single (.quiet ⟨?_, hsame.queues, hsame.directory, hsame.batches⟩)
      simp only [World.alter_state, World.note_state, hsame.tables]
      exact hunlocked

end Table

namespace Queue

/-- A completion comes to the end of a queue, and then a waker runs. -/
theorem follows_push (q : Key Queue) (c : Completion) :
    Follows (Batch.EndStep play b) (push play q c) := by
  intro w
  cases hlock : (w.state.queues.get q).lock with
  | held | poisoned =>
      unfold push locking guarding
      simp only [ensures_bind, ensures_getState, then_ok, hlock, ensures_throw, then_error]
      exact .refl
  | free =>
      refine ensures_push hlock ?_
      have hkept : ((w.state.queues.modify q fun queue =>
          { queue with pending := queue.pending ++ [c] }).get q).waker =
            (w.state.queues.get q).waker :=
        w.state.queues.apply_get_modify q q
          (fun queue => { queue with pending := queue.pending ++ [c] }) Queue.waker fun _ => rfl
      cases hwaker : (w.state.queues.get q).waker with
      | none =>
          refine ensures_wake_of_none (hkept.trans hwaker) (.single (.pushed q c rfl ?_ rfl rfl))
          refine w.state.queues.modify_congr q _ _ ?_
          rw [← hwaker]
      | some waker =>
          refine ensures_wake_of_some (hkept.trans hwaker) ?_
          have hwoken : Batch.EndStep play b w
              ((((w.alter (·.setQueue q fun queue =>
                { queue with pending := queue.pending ++ [c] })).noteUnder (.queue q)
                  (.pushed q c)).alter (·.setQueue q fun queue =>
                    { queue with waker := none })).note (.woken q waker.name)) :=
            .pushed q c rfl (w.state.queues.modify_modify q _ _) rfl rfl
          exact Ensures.mono (follows_run (b := b) none waker.code _) fun r w' hr =>
            .head hwoken hr

end Queue

/-! ## What a batch does -/

theorem follows_modifyBatch {f : State → State}
    (hf : ∀ s, ∃ g, (f s).batches = s.batches.modify b g ∧ (f s).tables = s.tables ∧
      (f s).queues = s.queues ∧ (f s).directory = s.directory) :
    Follows (Batch.EndStep play b) (modifyState f) := by
  refine follows_modifyState fun s => ?_
  obtain ⟨g, hbatches, htables, hqueues, hdirectory⟩ := hf s
  refine ⟨htables, hqueues, hdirectory, fun b' hb' => ?_⟩
  rw [hbatches, Arena.get_modify_of_ne _ _ hb']

theorem Handler.follows_destroy (h : Handler) :
    Follows (Batch.EndStep play b) (h.destroy play b) :=
  (Endpoint.follows_releaseAll h.captured).ensuring (follows_record _)

theorem Handler.follows_invoke (h : Handler) (c : Completion) :
    Follows (Batch.EndStep play b) (h.invoke play b c) := by
  refine Follows.bind (follows_record _) fun _ => Follows.ensuring ?_ h.follows_destroy
  cases h.action with
  | run name code reply => exact Follows.bind (follows_run none code) fun _ => follows_pure _
  | forward q => exact Follows.bind (Queue.follows_push q c) fun _ => follows_pure _

theorem Attachment.follows_destroy (a : Attachment) :
    Follows (Batch.EndStep play b) (a.destroy play b) :=
  (Endpoint.follows_releaseAll a.value.captured).ensuring (follows_record _)

theorem Bus.follows_resetToggles (bus : Key Bus) (asker : Option (Key Batch)) (target : Target)
    (scope : ResetScope) :
    Follows (Batch.EndStep play b) (resetToggles play bus asker target scope) := by
  refine Follows.bind (follows_nextHook _ _ _) fun hook? => ?_
  refine Follows.bind (follows_record _) fun _ => ?_
  cases hook? with
  | none => exact follows_pure _
  | some hook =>
      refine follows_getState_bind fun s => ?_
      cases hook.reply.table.bind s.directory.tables.find? with
      | none =>
          refine Follows.bind (follows_run none hook.code) fun _ => ?_
          cases hook.reply.reply <;> exact follows_pure _
      | some table =>
          refine Follows.bind (Table.follows_resetToggles table target scope) fun _ => ?_
          refine Follows.bind (follows_record _) fun _ => ?_
          refine Follows.bind (follows_run none hook.code) fun _ => ?_
          cases hook.reply.reply <;> exact follows_pure _

theorem Bus.follows_batchFarewell (bus : Key Bus) :
    Follows (Batch.EndStep play b) (batchFarewell play bus b) := by
  refine Follows.bind (follows_nextHook _ _ _) fun hook? => ?_
  refine Follows.bind (follows_record _) fun _ => ?_
  cases hook? with
  | none => exact follows_pure _
  | some hook => exact Follows.bind (follows_run (some b) hook.code) fun _ => follows_pure _

namespace Batch

theorem follows_takeHandler? : Follows (EndStep play b) (takeHandler? b) := by
  refine follows_getState_bind fun s => ?_
  split
  · exact follows_pure _
  · exact Follows.bind (follows_modifyBatch fun s => ⟨_, rfl, rfl, rfl, rfl⟩) fun _ =>
      follows_pure _

theorem follows_takeData? : Follows (EndStep play b) (takeData? b) := by
  refine follows_getState_bind fun s => ?_
  split
  · exact follows_pure _
  · exact Follows.bind (follows_modifyBatch fun s => ⟨_, rfl, rfl, rfl, rfl⟩) fun _ =>
      follows_pure _

theorem follows_modifyTransfer (f : Transfer → Transfer) :
    Follows (EndStep play b) (modifyTransfer b f) := by
  unfold modifyTransfer modify
  exact follows_modifyBatch fun s => ⟨_, rfl, rfl, rfl, rfl⟩

theorem follows_resetToggles : Follows (EndStep play b) (resetToggles play b) := by
  refine follows_getState_bind fun s => ?_
  change Follows _ (if (s.transferOf b).NeedsReset then _ else _)
  split
  · refine Follows.bind (follows_record _) fun _ => ?_
    split
    · exact follows_throw _
    · refine Follows.bind (Bus.follows_resetToggles _ _ _ _) fun answer? => ?_
      cases answer? <;> exact follows_pure _
  · exact follows_pure _

theorem follows_deliver : Follows (EndStep play b) (deliver play b) := by
  refine Follows.bind follows_takeHandler? fun handler? => ?_
  cases handler? with
  | none => exact follows_pure ()
  | some handler =>
      refine follows_getState_bind fun s => ?_
      refine Follows.bind (follows_modifyTransfer _) fun _ => ?_
      refine Follows.bind (handler.follows_invoke _) fun error? => ?_
      cases error? with
      | none => exact follows_pure ()
      | some error => exact follows_record _

theorem follows_release : Follows (EndStep play b) (release play b) := by
  refine follows_getState_bind fun s => ?_
  split
  · exact follows_pure ()
  · refine Follows.bind (follows_modifyBatch fun s => ⟨_, rfl, rfl, rfl, rfl⟩) fun _ => ?_
    refine Follows.bind (follows_record _) fun _ => ?_
    refine Follows.bind (Endpoint.follows_release _) fun _ => ?_
    exact Follows.bind (Bus.follows_batchFarewell _) fun _ => follows_record _

theorem follows_destroyBelongings : Follows (EndStep play b) (destroyBelongings play b) := by
  refine Follows.ensuring (Follows.bind follows_takeHandler? fun handler? => ?_)
    (Follows.bind follows_takeData? fun attachment? => ?_)
  · cases handler? with
    | none => exact follows_pure ()
    | some handler => exact handler.follows_destroy
  · cases attachment? with
    | none => exact follows_pure ()
    | some a => exact a.follows_destroy

theorem follows_endAfter {body : Run Unit} (hbody : Follows (EndStep play b) body) :
    Follows (EndStep play b) (endAfter play b body) :=
  (hbody.ensuring follows_release).ensuring
    (follows_destroyBelongings.ensuring (follows_record _))

theorem follows_finish : Follows (EndStep play b) (finish play b) := by
  refine follows_endAfter (Follows.bind (follows_record _) fun _ => ?_)
  have hrest : Follows (EndStep play b)
      (do
        deliver play b
        release play b) :=
    Follows.bind follows_deliver fun _ => follows_release
  refine Follows.bind follows_resetToggles fun outcome => ?_
  cases outcome with
  | ok _ => exact hrest
  | error error => exact Follows.bind (follows_record _) fun _ => hrest

/-- However a batch ends, what it meets with on the way is left as user code left it. -/
theorem Ending.follows (ending : Ending) : Follows (EndStep play b) (ending.run play b) := by
  cases ending with
  | finish => exact follows_finish
  | abort => exact Follows.bind (follows_modifyTransfer _) fun _ => follows_finish
  | destroy => exact follows_endAfter follows_release
  | drop => exact follows_endAfter (follows_pure ())

end Batch

end UsbTransfer
