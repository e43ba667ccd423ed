import UsbTransfer.Proofs.Omissions

/-!
# What a failed call leaves

A call that failed leaves the state as it was.  Some put on record that they failed, and nothing
else: no bus is called, and nothing is destroyed.  The batch that was in use is under its name
again, and the table that was looked at is unlocked.
-/

namespace UsbTransfer

open Run

/-- The state is as it was, and nothing but the one occurrence was recorded, if any. -/
structure World.Unmoved (o? : Option Occurrence) (w w' : World) : Prop where
  state : w'.state = w.state
  history : ∃ s : State, s.batches = w.state.batches ∧
    w'.history = (o?.map fun o => ⟨o, s⟩).toList ++ w.history

theorem World.unmoved_self (w : World) : w.Unmoved none w :=
  ⟨rfl, w.state, rfl, rfl⟩

theorem World.unmoved_note (w : World) (o : Occurrence) : w.Unmoved (some o) (w.note o) :=
  ⟨rfl, w.state, rfl, rfl⟩

namespace Session

variable {play : Player} {w : World} {b : Key Batch} {atHand : Option (Key Batch)} {name : String}

/-! ## Batches -/

theorem ensures_keepBatch_of_unnamed (hfind : w.state.directory.batches.find? name = none)
    (Q : Except Fault Unit → World → Prop) :
    Ensures (keepBatch play name b) w Q ↔
      Q (.ok ())
        (w.alter (·.setDirectory fun d => { d with batches := d.batches.insert name b })) := by
  unfold keepBatch
  simp only [ensures_bind, ensures_getState, then_ok, ensures_modifyDirectory, hfind, ensures_pure]

/-- A batch that was in use without being moved is under its name again. -/
theorem unmoved_named {w₂ : World} {o? : Option Occurrence} (hw : w.state.Ordered)
    (hfind : w.state.directory.batches.find? name = some b)
    (h : (w.alter (·.setDirectory fun d => { d with batches := d.batches.erase name })).Unmoved
      o? w₂) :
    w.Unmoved o?
      (w₂.alter (·.setDirectory fun d => { d with batches := d.batches.insert name b })) := by
  obtain ⟨hstate, s, hs, hhistory⟩ := h
  have hback := Names.Ordered.insert_erase hw hfind
  refine ⟨?_, s, hs, hhistory⟩
  simp only [World.alter_state, hstate, State.setDirectory, hback]

/-- A batch gets its name back after something was done with it.  A fault that strikes then is not
the failure of what was done. -/
theorem ensures_named_unmoved {P : Result → Prop} {o? : Option Occurrence} {m : Run Result}
    (hw : w.state.Ordered) (hfind : w.state.directory.batches.find? name = some b) {w₁ : World}
    (hw₁ : w₁ = w.alter (·.setDirectory fun d => { d with batches := d.batches.erase name }))
    (hm : Ensures m w₁ fun r w₂ => (P (resultOf r) → w₁.Unmoved o? w₂) ∧
      (w₂.state.directory = w₁.state.directory ∨ ∀ fault, ¬ P (.error (.faulted fault)))) :
    Ensures (ensuring m (keepBatch play name b)) w₁ fun r w' =>
      P (resultOf r) → w.Unmoved o? w' := by
  subst hw₁
  rw [ensures_ensuring]
  refine hm.mono fun r w₂ hr => ?_
  obtain ⟨hunmoved, hdirectory⟩ := hr
  have hgone := Names.Ordered.find?_erase hw name
  by_cases hfailed : P (resultOf r)
  · have hleft := hunmoved hfailed
    rw [ensures_keepBatch_of_unnamed (by rw [hleft.state]; exact hgone)]
    exact fun _ => unmoved_named hw hfind hleft
  · cases r with
    | error fault =>
        refine (ensures_worldAfter _ _).mono fun r' w₃ _ hlater => ?_
        rw [settled_error] at hlater
        exact absurd hlater hfailed
    | ok result =>
        rcases hdirectory with hsame | hnever
        · rw [ensures_keepBatch_of_unnamed (by rw [hsame]; exact hgone)]
          exact fun hlater => absurd hlater hfailed
        · refine (ensures_worldAfter _ _).mono fun r' w₃ _ hlater => ?_
          cases r' with
          | ok _ => exact absurd hlater hfailed
          | error fault => exact absurd hlater (hnever fault)

/-- What is done with a batch leaves all as it was if it fails, and then so does the command. -/
theorem ensures_onBatch_unmoved {P : Result → Prop} {o? : Key Batch → Option Occurrence}
    {act : Key Batch → Run Result} (hw : w.state.Ordered)
    (hP : ∀ mistake, ¬ P (.error (.mistaken mistake)))
    (hact : ∀ b w₁, meant? w.state atHand name = some b → w₁.state.batches = w.state.batches →
      Ensures (act b) w₁ fun r w₂ => (P (resultOf r) → w₁.Unmoved (o? b) w₂) ∧
        (w₂.state.directory = w₁.state.directory ∨ ∀ fault, ¬ P (.error (.faulted fault)))) :
    Ensures (onBatch play atHand name act) w fun r w' =>
      P (resultOf r) → ∃ b, meant? w.state atHand name = some b ∧ w.Unmoved (o? b) w' := by
  unfold onBatch
  cases hatHand : (if name = atHandName then atHand else none) with
  | some b =>
      have hmeant : meant? w.state atHand name = some b := by
        rw [meant?, hatHand, Option.some_or]
      exact (hact b w hmeant rfl).mono fun r w' hr hfailed => ⟨b, hmeant, hr.1 hfailed⟩
  | none =>
      have hmeant : meant? w.state atHand name = w.state.directory.batches.find? name := by
        rw [meant?, hatHand, Option.none_or]
      rw [hmeant] at hact ⊢
      cases hfind : w.state.directory.batches.find? name with
      | none =>
          simp only [takeBatch, ensures_bind, ensures_getState, then_ok, hfind, ensures_pure]
          exact fun hfailed => absurd hfailed (hP _)
      | some b =>
          simp only [ensures_bind]
          rw [ensures_takeBatch_of_named hfind, then_ok]
          refine (ensures_named_unmoved hw hfind rfl (hact b _ hfind rfl)).mono ?_
          exact fun r w' hr hfailed => ⟨b, rfl, hr hfailed⟩

theorem ensures_allocBuffer_unmoved (b : Key Batch) (length : Nat) (granted : Bool) (w : World) :
    Ensures (allocBuffer b length granted) w fun r w' =>
      ((∃ error, resultOf r = .error (.failed error)) →
        w.Unmoved (some (.bufferRefused b length)) w') ∧
      w'.state.directory = w.state.directory := by
  simp only [allocBuffer, Batch.allocBuffer, ensures_bind, ensures_getState, then_ok]
  cases (w.state.transferOf b).allocBuffer? length granted with
  | none => exact ⟨fun _ => w.unmoved_note _, rfl⟩
  | some transfer => exact ⟨(by rintro ⟨_, h⟩; cases h), rfl⟩

/-- An edit that is refused changes nothing. -/
theorem ensures_edit_unmoved (edited : Transfer → Except Fault Transfer) (w : World) :
    Ensures
      (do
        (do
          let transfer ← ofExcept (edited ((← getState).transferOf b))
          Batch.modifyTransfer b fun _ => transfer)
        return (.ok .done : Result)) w fun r w' =>
      ((∃ fault, resultOf r = .error (.faulted fault)) → w.Unmoved none w') ∧
      w'.state.directory = w.state.directory := by
  simp only [ensures_bind, ensures_getState, then_ok]
  cases edited (w.state.transferOf b) with
  | error fault => exact ⟨fun _ => w.unmoved_self, rfl⟩
  | ok transfer => exact ⟨(by rintro ⟨_, h⟩; cases h), rfl⟩

/-- A batch that was released asks nobody for a reset. -/
theorem ensures_resetToggle_unmoved (hreleased : (w.state.batches.get b).endpoint = none) :
    Ensures (resetToggle play b) w fun r w' =>
      ((∃ fault, resultOf r = .error (.faulted fault)) →
        w.Unmoved (some (.togglesResetting b)) w') ∧
      w'.state.directory = w.state.directory := by
  simp only [resetToggle, Batch.resetToggles, ensures_bind, ensures_getState, then_ok]
  split
  · simp only [ensures_bind, ensures_record, then_ok, hreleased, ensures_throw, then_error]
    exact ⟨fun _ => w.unmoved_note _, rfl⟩
  · exact ⟨(by rintro ⟨_, h⟩; cases h), rfl⟩

/-- What does something before it answers comes to that answer or to a fault. -/
theorem ensures_then_answer {m : Run Unit} {result : Result}
    {Q : Except Fault Result → World → Prop}
    (h : ∀ r w', r = .ok result ∨ (∃ fault, r = .error fault) → Q r w') :
    Ensures m w (Then (fun _ => pure result) Q) := by
  refine (ensures_worldAfter m w).mono fun r w' _ => ?_
  cases r with
  | ok _ => exact h _ _ (.inl rfl)
  | error fault => exact h _ _ (.inr ⟨fault, rfl⟩)

/-- An answer that tells something is not the answer that there is nothing. -/
theorem nothing_untold {answer : Answer} {r : Except Fault Result} (hanswer : answer ≠ .nothing)
    (h : r = .ok (.ok answer) ∨ ∃ fault, r = .error fault) :
    resultOf r ≠ .ok .nothing := by
  rintro hnothing
  rcases h with rfl | ⟨fault, rfl⟩
  · exact hanswer (Except.ok.inj hnothing)
  · cases hnothing

/-- A value that is not taken stays where it is. -/
theorem ensures_takeData_unmoved (b : Key Batch) (type : DataType) (keep : Option String)
    (w : World) :
    Ensures (takeData play b type keep) w fun r w' =>
      resultOf r = .ok .nothing → w.Unmoved none w' := by
  unfold takeData Batch.takeDataOf?
  simp only [ensures_bind, ensures_getState, then_ok]
  cases hdata : (w.state.batches.get b).data with
  | none => exact fun _ => w.unmoved_self
  | some a =>
      obtain ⟨serial, value⟩ := a
      dsimp only
      by_cases htype : value.type = type
      · simp only [if_pos htype, Batch.takeData?, ensures_bind, ensures_getState, then_ok, hdata,
          ensures_modifyState, ensures_pure, ensures_record]
        cases value with
        | handle e | number | text | noisy =>
            simp only [ensures_bind, ensures_getState, then_ok]
            refine ensures_then_answer fun r w' hr hnothing => ?_
            exact absurd hnothing (nothing_untold (fun h => by cases h) hr)
      · simp only [if_neg htype, ensures_pure, then_ok]
        exact fun _ => w.unmoved_self

end Session

/-! ## Tables -/

/-- The world in which a table has refused the endpoint of a handle, which is in flight then. -/
def World.refuse (w : World) (t : Key Table) (handle : String) (e : Key Endpoint) : World :=
  (w.alter (·.takeHandle handle)).noteUnder (.table t) (.registrationRefused t e)

namespace Table

variable {play : Player} {w : World} {t : Key Table} {e : Key Endpoint}

/-- Nothing is done while somebody else has the table locked. -/
theorem ensures_locking_of_taken {α : Type} {m : Run α} {Q : Except Fault α → World → Prop}
    (hlock : (w.state.tables.get t).lock ≠ .free) (h : ∀ fault, Q (.error fault) w) :
    Ensures (locking t m) w Q := by
  unfold locking guarding
  simp only [ensures_bind, ensures_getState, then_ok]
  cases hcase : (w.state.tables.get t).lock with
  | free => exact absurd hcase hlock
  | held => exact h _
  | poisoned => exact h _

/-- What holds wherever the lock ends up. -/
theorem ensures_locking_of_free {α : Type} {m : Run α} {Q : Except Fault α → World → Prop}
    (hfree : (w.state.tables.get t).lock = .free)
    (h : Ensures m (w.alter (·.lockTable t .held)) fun r w' =>
      ∀ lock, Q r (w'.alter (·.lockTable t lock))) :
    Ensures (locking t m) w Q := by
  unfold locking
  rw [ensures_guarding hfree]
  refine Ensures.mono h fun r w' hr => ?_
  cases r with
  | ok a => exact hr .free
  | error fault => exact hr .poisoned

theorem ensures_find?_unmoved (t : Key Table) (target : Target) (w : World) :
    Ensures (find? t target) w fun r w' => r = .ok none → w' = w := by
  by_cases hfree : (w.state.tables.get t).lock = .free
  · cases hlookup : (w.state.tables.get t).lookup? w.state.targetOf target with
    | none => exact ensures_find?_of_none hfree hlookup fun _ => rfl
    | some entry =>
        refine ensures_locking_of_free hfree ?_
        simp only [ensures_bind, ensures_getState, then_ok, World.alter_state]
        rw [State.lookup?_lockTable, hlookup]
        simp only [ensures_bind]
        refine (ensures_worldAfter _ _).mono fun r w' _ => ?_
        cases r with
        | ok _ => exact fun _ h => by cases h
        | error fault => exact fun _ h => by cases h
  · exact ensures_locking_of_taken hfree fun fault h => by cases h

theorem ensures_remove_unmoved (t : Key Table) (target : Target) (w : World) :
    Ensures (remove t target) w fun r w' => ∀ error, r = .ok (.error error) → w' = w := by
  by_cases hfree : (w.state.tables.get t).lock = .free
  · cases hlookup : (w.state.tables.get t).lookup? w.state.targetOf target with
    | none => exact ensures_remove_of_none hfree hlookup fun _ _ => rfl
    | some entry =>
        refine ensures_locking_of_free hfree ?_
        simp only [ensures_bind, ensures_getState, then_ok, World.alter_state]
        rw [State.lookup?_lockTable, hlookup]
        simp only [ensures_bind, ensures_record, then_ok]
        refine (ensures_worldAfter _ _).mono fun r w' _ => ?_
        cases r with
        | ok _ => exact fun _ _ h => by cases h
        | error fault => exact fun _ _ h => by cases h
  · exact ensures_locking_of_taken hfree fun fault _ h => by cases h

/-- What the release of a refused reference comes to is what the table comes to. -/
theorem ensures_register_refused {Q : World → Prop} (t : Key Table) (e : Key Endpoint)
    (h : ∀ entry,
      (w.state.tables.get t).lookup? w.state.targetOf (w.state.targetOf e) = some entry →
      Ensures (Endpoint.release play e) (w.noteUnder (.table t) (.registrationRefused t e))
        fun r w' => r = .ok () → Q w') :
    Ensures (register play t e) w fun r w' => (∃ error, r = .ok (.error error)) → Q w' := by
  by_cases hfree : (w.state.tables.get t).lock = .free
  · cases hlookup : (w.state.tables.get t).lookup? w.state.targetOf (w.state.targetOf e) with
    | none => exact ensures_register_of_vacant hfree hlookup (by rintro ⟨_, h⟩; cases h)
    | some entry =>
        refine ensures_register_of_matching hfree hlookup ((h entry hlookup).mono fun r w' hr => ?_)
        cases r with
        | ok _ => exact fun _ => hr rfl
        | error fault =>
            rintro ⟨_, h⟩
            cases h
  · unfold register
    rw [ensures_bind]
    exact ensures_locking_of_taken hfree (by rintro _ ⟨_, h⟩; cases h)

end Table

namespace Session

variable {play play' : Player} {w w' : World}

theorem ensures_find_unmoved (table : String) (target : Target) (keep : Option String)
    (w : World) :
    Ensures (find play table target keep) w fun r w' => resultOf r = .ok .nothing → w' = w := by
  unfold find withTable
  simp only [ensures_bind, ensures_getState, then_ok]
  split
  · exact fun _ => rfl
  · next t _ =>
      simp only [ensures_bind]
      refine (Table.ensures_find?_unmoved t target w).mono fun r w₁ hr => ?_
      rcases r with fault | _ | e
      · exact fun h => by cases h
      · exact fun _ => hr rfl
      · simp only [then_ok, ensures_bind, ensures_getState]
        refine ensures_then_answer fun r w' hr hnothing => ?_
        exact absurd hnothing (nothing_untold (fun h => by cases h) hr)

theorem ensures_remove_unmoved (table : String) (target : Target) (keep : Option String)
    (w : World) :
    Ensures (remove play table target keep) w fun r w' =>
      (∃ error, resultOf r = .error (.failed error)) → w' = w := by
  unfold remove withTable
  simp only [ensures_bind, ensures_getState, then_ok]
  split
  · exact fun _ => rfl
  · next t _ =>
      simp only [ensures_bind]
      refine (Table.ensures_remove_unmoved t target w).mono fun r w₁ hr => ?_
      rcases r with fault | error | e
      · rintro ⟨_, h⟩
        cases h
      · exact fun _ => hr error rfl
      · simp only [then_ok, ensures_bind, ensures_getState]
        refine ensures_then_answer fun r w' hr => ?_
        rintro ⟨_, hfailed⟩
        rcases hr with rfl | ⟨fault, rfl⟩ <;> cases hfailed

/-- What the release of a handle that was refused comes to is what the command comes to. -/
theorem ensures_register_refused {Q : World → Prop} (table handle : String)
    (h : ∀ t h entry, w.state.directory.tables.find? table = some t →
      w.state.directory.handles.find? handle = some h → h ∉ w.state.directory.loans →
      (w.state.tables.get t).lookup? w.state.targetOf (w.state.targetOf h.endpoint) = some entry →
        Ensures (Endpoint.release play h.endpoint) (w.refuse t handle h.endpoint)
          fun r w' => r = .ok () → Q w') :
    Ensures (register play table handle) w fun r w' =>
      (∃ error, resultOf r = .error (.failed error)) → Q w' := by
  unfold register withTable takeHandle
  simp only [ensures_bind, ensures_getState, then_ok]
  split
  · rintro ⟨_, h⟩
    cases h
  · next t ht =>
      simp only [ensures_bind, ensures_getState, then_ok]
      split
      · rintro ⟨_, h⟩
        cases h
      · next named hnamed =>
          split
          · rintro ⟨_, h⟩
            cases h
          · next hloan =>
              simp only [ensures_bind, ensures_modifyState, then_ok, ensures_pure]
              refine (Table.ensures_register_refused t named.endpoint fun entry hlookup =>
                h t named entry ht hnamed hloan hlookup).mono fun r w' hr => ?_
              rcases r with fault | error | _
              · rintro ⟨_, h⟩
                cases h
              · exact fun _ => hr ⟨error, rfl⟩
              · rintro ⟨_, h⟩
                cases h

/-- A registration that is refused leaves what the release of its handle leaves. -/
theorem ensures_register_released (hplay : play.Mirrors play') (hw : w.Mirrors w')
    (table handle : String) :
    Ensures (register play table handle) w fun r w₁ =>
      (∃ error, resultOf r = .error (.failed error)) →
        Ensures (releaseHandle play' handle) w' fun r' w₁' =>
          r' = .ok (.ok .done) ∧ w₁.Mirrors w₁' := by
  refine ensures_register_refused table handle fun t h entry _ hnamed hloan _ => ?_
  have htaken := hw.alter (f := (·.takeHandle handle)) fun _ hs => hs
  have hrefused : (w.refuse t handle h.endpoint).Mirrors (w'.alter (·.takeHandle handle)) :=
    ⟨⟨htaken.state, .omitted trivial htaken.history⟩, htaken.ordered⟩
  refine ((Endpoint.agree_release hplay h.endpoint).ensures hrefused).mono ?_
  rintro r w₁ hr rfl
  simp only [releaseHandle, takeHandle, ensures_bind, ensures_getState, then_ok, hw.state, hnamed,
    Directory.OnLoan, hloan, if_false, ensures_modifyState, ensures_pure]
  refine Ensures.mono hr fun r' w₁' hr' => ?_
  obtain ⟨rfl, hmirrors⟩ := hr'
  exact ⟨rfl, hmirrors⟩

/-! ## Commands -/

/-- The forms in which commands tell that they failed. -/
def FailsAs : Command → Result → Prop
  | .allocBuffer _ _ _, r | .remove _ _ _, r | .register _ _, r =>
      ∃ error, r = .error (.failed error)
  | .setSetup _ _, r | .schedule _, r | .resetToggle _, r => ∃ fault, r = .error (.faulted fault)
  | .takeData _ _ _, r | .find _ _ _, r => r = .ok .nothing
  | _, _ => False

theorem failsAs_of_failsWith {atHand : Option (Key Batch)} {s : State} {command : Command}
    {r : Result} (h : command.failsWith atHand s r = true) :
    FailsAs command r := by
  unfold Command.failsWith at h
  split at h
  · exact ⟨_, rfl⟩
  · exact ⟨_, rfl⟩
  · exact ⟨_, rfl⟩
  · exact ⟨_, rfl⟩
  · rfl
  · rfl
  · exact ⟨_, rfl⟩
  · exact ⟨_, rfl⟩
  · cases h

theorem released_of_failsWith {atHand : Option (Key Batch)} {s : State} {batch : String}
    {r : Result} (h : (Command.resetToggle batch).failsWith atHand s r = true) :
    s.isReleased atHand batch = true := by
  obtain ⟨fault, rfl⟩ := failsAs_of_failsWith h
  exact h

theorem endpoint_of_released {atHand : Option (Key Batch)} {s : State} {batch : String}
    {b : Key Batch} (h : s.isReleased atHand batch = true)
    (hmeant : meant? s atHand batch = some b) :
    (s.batches.get b).endpoint = none := by
  rw [State.isReleased, hmeant] at h
  exact Option.isNone_iff_eq_none.mp h

/-- What is said of the forms in which commands fail covers the failures. -/
theorem ensures_of_failsAs {atHand : Option (Key Batch)} {command : Command} {m : Run Result}
    (h : Ensures m w fun r w' =>
      FailsAs command (resultOf r) → w.Unmoved (command.mark? atHand w.state) w') :
    Ensures m w fun r w' =>
      command.failsWith atHand w.state (resultOf r) = true →
        w.Unmoved (command.mark? atHand w.state) w' :=
  h.mono fun _ _ hr hfails => hr (failsAs_of_failsWith hfails)

/-- The command on a batch that fails leaves everything as it was, if what is done with the batch
does so. -/
theorem ensures_onBatch_failsAs {atHand : Option (Key Batch)} {command : Command} {name : String}
    {o? : Key Batch → Option Occurrence} {act : Key Batch → Run Result} (hw : w.state.Ordered)
    (hmistaken : ∀ mistake, ¬ FailsAs command (.error (.mistaken mistake)))
    (hmark : ∀ b, meant? w.state atHand name = some b → o? b = command.mark? atHand w.state)
    (hact : ∀ b w₁, meant? w.state atHand name = some b → w₁.state.batches = w.state.batches →
      Ensures (act b) w₁ fun r w₂ => (FailsAs command (resultOf r) → w₁.Unmoved (o? b) w₂) ∧
        (w₂.state.directory = w₁.state.directory ∨
          ∀ fault, ¬ FailsAs command (.error (.faulted fault)))) :
    Ensures (onBatch play atHand name act) w fun r w' =>
      command.failsWith atHand w.state (resultOf r) = true →
        w.Unmoved (command.mark? atHand w.state) w' := by
  refine ensures_of_failsAs ((ensures_onBatch_unmoved hw hmistaken hact).mono ?_)
  intro r w' hr hfails
  obtain ⟨b, hmeant, hunmoved⟩ := hr hfails
  rwa [hmark b hmeant] at hunmoved

/-- Apart from a refused registration, a command that fails leaves everything as it was. -/
theorem ensures_carryOut_unmoved {atHand : Option (Key Batch)} (hw : w.state.Ordered)
    {command : Command} (hregister : ∀ table handle, command ≠ .register table handle) :
    Ensures (carryOut play atHand command) w fun r w' =>
      command.failsWith atHand w.state (resultOf r) = true →
        w.Unmoved (command.mark? atHand w.state) w' := by
  cases command with
  | allocBuffer batch length granted =>
      exact ensures_onBatch_failsAs hw (by rintro _ ⟨_, h⟩; cases h)
        (fun b hmeant => by rw [Command.mark?, hmeant]; rfl) fun b w₁ _ _ =>
          (ensures_allocBuffer_unmoved b length granted w₁).mono fun _ _ hr => ⟨hr.1, .inl hr.2⟩
  | setSetup batch setup =>
      exact ensures_onBatch_failsAs hw (by rintro _ ⟨_, h⟩; cases h) (fun _ _ => rfl)
        fun b w₁ _ _ =>
          (ensures_edit_unmoved (·.setSetup setup) w₁).mono fun _ _ hr => ⟨hr.1, .inl hr.2⟩
  | schedule batch =>
      exact ensures_onBatch_failsAs hw (by rintro _ ⟨_, h⟩; cases h) (fun _ _ => rfl)
        fun b w₁ _ _ => (ensures_edit_unmoved (·.schedule) w₁).mono fun _ _ hr => ⟨hr.1, .inl hr.2⟩
  | resetToggle batch =>
      by_cases hreleased : w.state.isReleased atHand batch = true
      case neg =>
        refine (ensures_worldAfter _ _).mono fun r w' _ hfails => ?_
        exact absurd (released_of_failsWith hfails) hreleased
      refine ensures_onBatch_failsAs hw (by rintro _ ⟨_, h⟩; cases h)
        (fun b hmeant => by rw [Command.mark?, hmeant]; rfl) fun b w₁ hmeant hbatches =>
          (ensures_resetToggle_unmoved ?_).mono fun _ _ hr => ⟨hr.1, .inl hr.2⟩
      rw [hbatches]
      exact endpoint_of_released hreleased hmeant
  | takeData batch type keep =>
      exact ensures_onBatch_failsAs hw (fun _ h => by cases h) (fun _ _ => rfl) fun b w₁ _ _ =>
        (ensures_takeData_unmoved b type keep w₁).mono fun _ _ hr =>
          ⟨hr, .inr fun _ h => by cases h⟩
  | find table target keep =>
      refine ensures_of_failsAs ((ensures_find_unmoved table target keep w).mono ?_)
      intro r w' hr hfails
      rw [hr hfails]
      exact w.unmoved_self
  | remove table target keep =>
      refine ensures_of_failsAs ((ensures_remove_unmoved table target keep w).mono ?_)
      intro r w' hr hfails
      rw [hr hfails]
      exact w.unmoved_self
  | register table handle => exact absurd rfl (hregister table handle)
  | _ => exact ensures_of_failsAs ((ensures_worldAfter _ _).mono fun _ _ _ hfails => hfails.elim)

end Session

end UsbTransfer
