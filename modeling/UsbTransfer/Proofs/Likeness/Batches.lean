import UsbTransfer.Proofs.Likeness.Library

/-!
# Alike operations of batches

A batch lives and ends in the same way whatever its bus and its handler answer.  Its handler is
invoked also when the toggles could not be reset, it is released also when its handler reported
an error, and a bus that has nothing to do when a batch goes away is called like any other.
-/

namespace UsbTransfer

open Run Comparison

variable {C : Comparison} {play play' : Player} {b : Key Batch}

namespace Bus

/-- What a bus makes of the request to reset toggles.  No behaviour resets nothing and plays
nothing, like a behaviour without table and script. -/
def resetWith (play : Player) (bus : Key Bus) (target : Target) (scope : ResetScope)
    (hook? : Option (Hook Script ResetAction)) : Run (Option (Except UsbError Unit)) := do
  match (Hook.table? hook?).bind (← getState).directory.tables.find? with
  | none => pure ()
  | some table => do
      let count ← Table.resetToggles table target scope
      record (.tableResetByBus bus count)
  play.run none (Hook.code? hook?)
  return hook?.bind (·.reply.reply.outcome?)

theorem resetToggles_eq (bus : Key Bus) (asker : Option (Key Batch)) (target : Target)
    (scope : ResetScope) :
    resetToggles play bus asker target scope = (do
      let hook? ← nextHook bus (·.toggleReset)
        fun plan => { plan with toggleReset := plan.toggleReset.advance }
      record (.resetRequested bus asker target scope)
      resetWith play bus target scope hook?) := by
  unfold resetToggles
  refine bind_congr fun hook? => bind_congr fun _ => ?_
  rcases hook? with _ | ⟨code, table, reply⟩
  · rfl
  · cases reply <;> rfl

theorem alike_resetToggles (hplay : C.Matches play play') (bus : Key Bus)
    (asker : Option (Key Batch)) (target : Target) (scope : ResetScope) :
    C.Alike (fun _ _ => True) (resetToggles play bus asker target scope)
      (resetToggles play' bus asker target scope) := by
  rw [resetToggles_eq, resetToggles_eq]
  refine Related.bind (alike_nextHook (R := fun hook? hook?' =>
    Hook.table? hook?' = Hook.table? hook? ∧ CodeAlike (Hook.code? hook?) (Hook.code? hook?'))
    bus ?_ ?_) ?_
  · rintro _ _ ⟨-, -, htable, hreset, -⟩
    exact ⟨htable 0, hreset 0⟩
  · rintro _ _ ⟨hcreate, hdestroy, htable, hreset, hfarewell⟩
    exact .intro hcreate hdestroy (fun k => htable (k + 1)) (fun k => hreset (k + 1)) hfarewell
  · rintro hook? hook?' hhook
    refine (agree_record _).bind fun _ => getState_bind fun s s' hs => ?_
    rw [hhook.alike.1, hs.directory.tables]
    have hrest : C.Alike (fun _ _ => True) (do
          play.run none (Hook.code? hook?)
          return hook?.bind (·.reply.reply.outcome?)) (do
          play'.run none (Hook.code? hook?')
          return hook?'.bind (·.reply.reply.outcome?)) :=
      (agree_run hplay none (hhook.map Hook.code? And.right)).bind fun _ =>
        related_pure ⟨trivial, fun h => by rw [hhook.same h]⟩
    split
    · exact hrest
    · refine (Table.agree_resetToggles _ target scope).bind fun _ => ?_
      exact (agree_record _).bind fun _ => hrest

end Bus

/-! ## Handlers and attached values -/

namespace Handler

theorem agree_destroy (hplay : C.Matches play play') {h h' : Handler} (hh : h.Alike h') :
    C.Agree (h.destroy play b) (h'.destroy play' b) := by
  unfold destroy
  rw [hh.captured, hh.serial, hh.noisy, hh.name?]
  exact (Endpoint.agree_releaseAll hplay _).ensuring (agree_record _)

theorem alike_invoke (hplay : C.Matches play play') {h h' : Handler}
    (hh : Like C.strict Handler.Alike h h') (c : Completion) :
    C.Alike (fun _ _ => True) (h.invoke play b c) (h'.invoke play' b c) := by
  unfold invoke
  rw [hh.alike.serial, hh.alike.name?]
  refine (agree_record _).bind fun _ => Related.ensuring ?_ (agree_destroy hplay hh.alike)
  obtain ⟨haction, hsame⟩ := hh.map (·.action) (·.action)
  generalize h.action = action, h'.action = action' at haction hsame ⊢
  cases haction with
  | run name hcode reply reply' =>
      have hcode' : Like C.strict CodeAlike _ _ := ⟨hcode, fun h => by cases hsame h; rfl⟩
      exact (agree_run hplay none hcode').bind fun _ =>
        related_pure ⟨trivial, fun h => by cases hsame h; rfl⟩
  | forward q =>
      exact (Queue.agree_push hplay q c).bind fun _ => related_pure (.refl trivial)

end Handler

theorem Attachment.agree_destroy (hplay : C.Matches play play') (a : Attachment) :
    C.Agree (a.destroy play b) (a.destroy play' b) :=
  (Endpoint.agree_releaseAll hplay _).ensuring (agree_record _)

namespace Batch

theorem agree_modify {f : Batch → Batch}
    (hf : ∀ batch batch', Batch.Alike batch batch' → Batch.Alike (f batch) (f batch')) :
    C.Agree (modify b f) (modify b f) :=
  agree_modifyState (fun _ _ hs => hs.modifyBatch b hf) fun _ h => h

theorem agree_modifyTransfer (f : Transfer → Transfer) :
    C.Agree (modifyTransfer b f) (modifyTransfer b f) :=
  agree_modify fun _ _ h => { h with transfer := congrArg f h.transfer }

theorem alike_takeHandler? :
    C.Alike (Option.Rel Handler.Alike) (takeHandler? b) (takeHandler? b) := by
  refine getState_bind fun s s' hs => ?_
  have hhandler := hs.read (fun s => (s.batches.get b).handler) (hs.batches.get b).handler
  generalize (s.batches.get b).handler = h?, (s'.batches.get b).handler = h?' at hhandler ⊢
  cases hhandler.alike with
  | none => exact related_pure hhandler
  | some hh =>
      exact (agree_modifyState (fun _ _ hs => hs.detachHandler b) fun _ h => h).bind fun _ =>
        related_pure hhandler

theorem agree_attachHandler (hplay : C.Matches play play') {action action' : HandlerAction}
    (haction : Like C.strict HandlerAction.Alike action action')
    (captured : List (Key Endpoint)) (noisy : Bool) :
    C.Agree (attachHandler play b action captured noisy)
      (attachHandler play' b action' captured noisy) := by
  refine alike_takeHandler?.bind fun replaced? replaced?' hreplaced => ?_
  refine getState_bind fun s s' hs => ?_
  rw [hs.serial]
  refine Agree.bind (agree_edits ⟨fun _ _ hs => hs.attachHandler b haction.alike captured noisy,
    fun h => by rw [haction.same h], fun _ _ h => h⟩) fun _ => (agree_record _).bind fun _ => ?_
  cases hreplaced.alike with
  | none => exact agree_pure ()
  | some hh => exact Handler.agree_destroy hplay hh

theorem agree_takeData? : C.Agree (takeData? b) (takeData? b) := by
  refine getState_bind fun s s' hs => ?_
  rw [(hs.batches.get b).data]
  split
  · exact agree_pure _
  · exact (agree_modifyState (fun _ _ hs => hs.detachData b) fun _ h => h).bind fun _ =>
      agree_pure _

theorem agree_takeDataOf? (type : DataType) :
    C.Agree (takeDataOf? b type) (takeDataOf? b type) := by
  refine getState_bind fun s s' hs => ?_
  rw [(hs.batches.get b).data]
  split
  · exact agree_pure _
  · split
    · exact agree_takeData?.bind fun _ => (agree_record _).bind fun _ => agree_pure _
    · exact agree_pure _

theorem agree_attachData (hplay : C.Matches play play') (value : DataValue) :
    C.Agree (attachData play b value) (attachData play' b value) := by
  refine agree_takeData?.bind fun replaced? => getState_bind fun s s' hs => ?_
  rw [hs.serial]
  refine Agree.bind (agree_modifyState (fun _ _ hs => hs.attachData b value) fun _ h => h)
    fun _ => (agree_record _).bind fun _ => ?_
  cases replaced? with
  | none => exact agree_pure ()
  | some replaced => exact replaced.agree_destroy hplay

/-! ## Ends -/

theorem alike_resetToggles (hplay : C.Matches play play') :
    C.Alike (fun _ _ => True) (resetToggles play b) (resetToggles play' b) := by
  refine getState_bind fun s s' hs => ?_
  simp only [hs.transferOf, (hs.batches.get b).endpoint, hs.busOf]
  split
  · refine (agree_record _).bind fun _ => ?_
    split
    · exact related_throw _
    · refine (Bus.alike_resetToggles hplay _ _ _ _).bind fun answer? answer?' hanswer => ?_
      cases answer? <;> cases answer?' <;>
        exact related_pure ⟨trivial, fun h => by cases hanswer.same h <;> rfl⟩
  · exact related_pure (.refl trivial)

theorem agree_deliver (hplay : C.Matches play play') :
    C.Agree (deliver play b) (deliver play' b) := by
  refine alike_takeHandler?.bind fun handler? handler?' hhandler => ?_
  cases hhandler.alike with
  | none => exact agree_pure ()
  | some hh =>
      refine getState_bind fun s s' hs => ?_
      rw [hs.transferOf]
      refine (agree_modifyTransfer _).bind fun _ => ?_
      refine (Handler.alike_invoke hplay hhandler.of_some _).bind fun error? error?' herror => ?_
      refine agree_remark ?_ ?_ fun h => by rw [herror.same h]
      · cases error? with
        | none => exact .inl rfl
        | some error => exact .inr ⟨_, rfl, rfl⟩
      · cases error?' with
        | none => exact .inl rfl
        | some error => exact .inr ⟨_, rfl, rfl⟩

theorem agree_release (hplay : C.Matches play play') :
    C.Agree (release play b) (release play' b) := by
  refine getState_bind fun s s' hs => ?_
  rw [(hs.batches.get b).endpoint, hs.busOf]
  split
  · exact agree_pure ()
  · refine (agree_modifyState (fun _ _ hs => hs.detachEndpoint b) fun _ h => h).bind fun _ => ?_
    refine (agree_record _).bind fun _ => (Endpoint.agree_release hplay _).bind fun _ => ?_
    refine (Bus.alike_batchFarewell hplay _).bind fun reply reply' hreply => ?_
    exact agree_record_of
      (hreply.map (Occurrence.batchReleased b) fun _ => .batchReleased b reply reply')

theorem agree_destroyBelongings (hplay : C.Matches play play') :
    C.Agree (destroyBelongings play b) (destroyBelongings play' b) := by
  refine Related.ensuring (alike_takeHandler?.bind fun handler? handler?' hhandler => ?_)
    (agree_takeData?.bind fun data? => ?_)
  · cases hhandler.alike with
    | none => exact agree_pure ()
    | some hh => exact Handler.agree_destroy hplay hh
  · cases data? with
    | none => exact agree_pure ()
    | some a => exact a.agree_destroy hplay

theorem agree_endAfter (hplay : C.Matches play play') {body body' : Run Unit}
    (hbody : C.Agree body body') :
    C.Agree (endAfter play b body) (endAfter play' b body') :=
  (hbody.ensuring (agree_release hplay)).ensuring
    ((agree_destroyBelongings hplay).ensuring (agree_record _))

/-- A reset that failed is remarked upon, and the batch goes on to finish. -/
theorem agree_finish (hplay : C.Matches play play') :
    C.Agree (finish play b) (finish play' b) := by
  refine agree_endAfter hplay ((agree_record _).bind fun _ => ?_)
  refine (alike_resetToggles hplay).bind fun outcome outcome' houtcome => ?_
  have hrest : C.Agree
      (do
        deliver play b
        release play b)
      (do
        deliver play' b
        release play' b) :=
    (agree_deliver hplay).bind fun _ => agree_release hplay
  -- whether the toggles were reset is remarked on, and that is all
  have hremarked : ∀ {remark remark' : Run Unit}, Remarks remark → Remarks remark' →
      (C.strict → remark' = remark) →
        C.Agree (remark >>= fun _ => deliver play b >>= fun _ => release play b)
          (remark' >>= fun _ => deliver play' b >>= fun _ => release play' b) :=
    fun hr hr' hsame => (agree_remark hr hr' hsame).bind fun _ => hrest
  have hsilent : Remarks (pure ()) := .inl rfl
  have hfailed : ∀ error, Remarks (record (.resetFailed b error)) := fun _ => .inr ⟨_, rfl, rfl⟩
  cases outcome with
  | ok _ =>
      cases outcome' with
      | ok _ => exact hrest
      | error error =>
          exact hremarked hsilent (hfailed error) fun h => by cases houtcome.same h
  | error error =>
      cases outcome' with
      | ok _ => exact hremarked (hfailed error) hsilent fun h => by cases houtcome.same h
      | error error' =>
          exact hremarked (hfailed error) (hfailed error') fun h => by
            rw [Except.error.inj (houtcome.same h)]

theorem agree_abort (hplay : C.Matches play play') : C.Agree (abort play b) (abort play' b) :=
  (agree_modifyTransfer _).bind fun _ => agree_finish hplay

theorem agree_destroy (hplay : C.Matches play play') :
    C.Agree (destroy play b) (destroy play' b) :=
  agree_endAfter hplay (agree_release hplay)

theorem agree_drop (hplay : C.Matches play play') : C.Agree (drop play b) (drop play' b) :=
  agree_endAfter hplay (agree_pure ())

/-! ## Creation -/

theorem agree_build (e : Key Endpoint) : C.Agree (build e) (build e) := by
  refine (Endpoint.agree_acquire e).bind fun _ => getState_bind fun s s' hs => ?_
  rw [hs.batches.nextKey]
  refine Agree.bind (agree_modifyState (fun _ _ hs => hs.addBatch e) fun _ h => h) fun _ => ?_
  exact (agree_record _).bind fun _ => agree_pure _

theorem agree_allocBuffer (length : Nat) (granted : Bool) :
    C.Agree (allocBuffer b length granted) (allocBuffer b length granted) := by
  refine getState_bind fun s s' hs => ?_
  rw [hs.transferOf]
  split
  · exact (agree_record _).bind fun _ => agree_pure _
  · exact (agree_modifyTransfer _).bind fun _ => agree_pure _

/-- An edit that may be refused. -/
theorem agree_edit (edited : Except Fault Transfer) :
    C.Agree
      (do
        let transfer ← ofExcept edited
        modifyTransfer b fun _ => transfer)
      (do
        let transfer ← ofExcept edited
        modifyTransfer b fun _ => transfer) := by
  cases edited with
  | error fault => exact Agree.bind (related_throw fault) fun _ => agree_modifyTransfer _
  | ok transfer => exact Agree.bind (agree_pure transfer) fun _ => agree_modifyTransfer _

end Batch

namespace Bus

/-- What a bus makes of the request for a batch. -/
def build (play : Player) (e : Key Endpoint) :
    Option (Hook Script BuildReply) → Run (Option (Except UsbError (Key Batch)))
  | none => return none
  | some hook => do
      match hook.reply with
      | .declined => do
          play.run none hook.code
          return none
      | .failed error => do
          play.run none hook.code
          return some (.error error)
      | .built on => do
          let named? := on.bind (← getState).directory.handles.find?
          let b ← Batch.build ((named?.map (·.endpoint)).getD e)
          onFault (play.run (some b) hook.code) (Batch.drop play b)
          return some (.ok b)

/-- A plain batch is left to be built, or it was built. -/
theorem build_of_plainly (play : Player) (e : Key Endpoint)
    {hook? : Option (Hook Script BuildReply)} (h : Hook.BuildsPlainly hook?) :
    build play e hook? = pure none ∨
      build play e hook? = Batch.build e >>= fun b => pure (some (.ok b)) := by
  rcases hook? with _ | ⟨_ | script, _ | on | error⟩
  · exact .inl rfl
  · exact .inl rfl
  · cases on with
    | none => exact .inr rfl
    | some name => exact h.elim
  all_goals exact h.elim

/-- The same behaviour makes the same of the request. -/
theorem agree_build (hplay : C.Matches play play') {code code' : Option Script}
    (hcode : Like C.strict CodeAlike code code') (reply : BuildReply) (e : Key Endpoint) :
    C.Agree (build play e (some ⟨code, reply⟩)) (build play' e (some ⟨code', reply⟩)) := by
  cases reply with
  | declined => exact (agree_run hplay none hcode).bind fun _ => agree_pure _
  | failed error => exact (agree_run hplay none hcode).bind fun _ => agree_pure _
  | built on =>
      refine getState_bind fun s s' hs => ?_
      rw [hs.directory.handles]
      refine (Batch.agree_build _).bind fun b => ?_
      exact ((agree_run hplay (some b) hcode).onFault (Batch.agree_drop hplay)).bind fun _ _ _ =>
        agree_pure _

end Bus

namespace Batch

/-- What becomes of the answer of a bus to the request for a batch. -/
def created (bus : Key Bus) (e : Key Endpoint) :
    Option (Except UsbError (Key Batch)) → Run (Except UsbError (Key Batch))
  | some (.error error) => return .error error
  | some (.ok b) => do
      record (.batchCreated b bus)
      return .ok b
  | none => do
      let b ← build e
      record (.batchCreated b bus)
      return .ok b

theorem create_eq (e : Key Endpoint) :
    create play e = (do
      let bus := (← getState).busOf e
      let hook? ← Bus.nextHook bus (·.batchCreate)
        fun plan => { plan with batchCreate := plan.batchCreate.advance }
      record (.batchRequested bus e)
      let answer? ← Bus.build play e hook?
      created bus e answer?) := by
  unfold create Bus.buildBatch
  simp only [bind_assoc]
  rfl

theorem agree_created (bus : Key Bus) (e : Key Endpoint)
    (answer? : Option (Except UsbError (Key Batch))) :
    C.Agree (created bus e answer?) (created bus e answer?) := by
  rcases answer? with _ | error | b
  · exact (agree_build e).bind fun b => (agree_record _).bind fun _ => agree_pure _
  · exact agree_pure _
  · exact (agree_record _).bind fun _ => agree_pure _

/-- Whether the bus builds a plain batch or leaves it to the general behaviour is all the same. -/
theorem created_of_plainly {hook? : Option (Hook Script BuildReply)}
    (h : Hook.BuildsPlainly hook?) (bus : Key Bus) (e : Key Endpoint) :
    Bus.build play e hook? >>= created bus e = created bus e none := by
  rcases Bus.build_of_plainly play e h with heq | heq
  · rw [heq, pure_bind]
  · rw [heq, bind_assoc]
    rfl

theorem agree_create (hplay : C.Matches play play') (e : Key Endpoint) :
    C.Agree (create play e) (create play' e) := by
  rw [create_eq, create_eq]
  refine getState_bind fun s s' hs => ?_
  rw [hs.busOf]
  refine Related.bind (Bus.alike_nextHook (R := Hook.BuildAlike Script.Alike) _ ?_ ?_) ?_
  · rintro _ _ ⟨hcreate, -, -, -, -⟩
    exact hcreate 0
  · rintro _ _ ⟨hcreate, hdestroy, htable, hreset, hfarewell⟩
    exact .intro (fun k => hcreate (k + 1)) hdestroy htable hreset hfarewell
  · rintro hook? hook?' ⟨hhook, hsame⟩
    refine (agree_record _).bind fun _ => ?_
    cases hhook with
    | plainly h h' =>
        rw [created_of_plainly h, created_of_plainly h']
        exact agree_created _ e none
    | same hcode reply =>
        have hcode' : Like C.strict CodeAlike _ _ := ⟨hcode, fun h => by cases hsame h; rfl⟩
        exact (Bus.agree_build hplay hcode' reply e).bind (agree_created _ e)

end Batch
end UsbTransfer
