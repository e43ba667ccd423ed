import UsbTransfer.Proofs.ValueSteps
import UsbTransfer.Proofs.Walks.Sessions

/-!
# Values in sessions

The library has nothing to do with the values of batches.  A value is put into a batch, changed
there and taken at once.  A batch that ends may lose its value, but only after it was released.  So
the record tells at every moment of a session which values batches have.
-/

namespace UsbTransfer

open Run

variable {A : Repertoire} {P : ToggleEvent → Prop} {play : Player} {b : Key Batch} {w w' : World}

/-! ## Steps aside of values -/

namespace State

namespace KeepsData

variable {s s' : State}

theorem of_batches (h : s'.batches = s.batches) (hserial : s.serial ≤ s'.serial) :
    s.KeepsData s' where
  data := fun b => by rw [h]
  released := fun b he => by rwa [h]
  size := by rw [h]
  serial := hserial

/-- A batch is changed that keeps its value and gets no endpoint. -/
theorem of_batch {f : Batch → Batch} (h : s'.batches = s.batches.modify b f)
    (hserial : s.serial ≤ s'.serial) (hdata : ∀ batch, (f batch).data = batch.data)
    (hreleased : ∀ batch, batch.endpoint = none → (f batch).endpoint = none) :
    s.KeepsData s' where
  data := by
    intro b'
    rw [h]
    exact s.batches.apply_get_modify b b' f Batch.data hdata
  released := by
    intro b' he
    rw [h, Arena.get_modify]
    split
    · next heq => exact hreleased _ (heq.1 ▸ he)
    · exact he
  size := by rw [h, Arena.size_modify]
  serial := hserial

end KeepsData

theorem detachData_of_none {s : State} (h : (s.batches.get b).data = none) :
    s.detachData b = s := by
  have hbatches := s.batches.modify_eq_self b (fun batch => { batch with data := none })
    (by rw [← h])
  simp only [detachData, hbatches, h, Option.map_none, Option.getD_none, List.nil_append]

end State

theorem Occurrence.Incidental.dataOf? {o : Occurrence} (h : o.Incidental) : o.dataOf? = none := by
  cases o <;> first | rfl | exact h.elim

theorem Occurrence.dataOf?_of_asked {o : Occurrence} {bus : Key Bus} (h : o.asked? = some bus) :
    o.dataOf? = none := by
  cases o <;> first | rfl | cases h

namespace ValueStep

/-- What neither changes batches nor takes numbers back is aside of values. -/
theorem aside {f : State → State} (hbatches : (f w.state).batches = w.state.batches)
    (hserial : w.state.serial ≤ (f w.state).serial) :
    ValueStep w (w.alter f) :=
  .alter (.of_batches hbatches hserial)

theorem aside_noted {f : State → State} {o : Occurrence} (hnone : o.dataOf? = none)
    (hkeeps : w.state.KeepsData (f w.state)) :
    ValueSteps w ((w.alter f).note o) :=
  .head (.alter hkeeps) (.single (.note hnone))

theorem noted_aside {f : State → State} {o : Occurrence} (hnone : o.dataOf? = none)
    (hbatches : (f w.state).batches = w.state.batches)
    (hserial : w.state.serial ≤ (f w.state).serial) :
    ValueSteps w ((w.note o).alter f) :=
  .head (.note hnone) (.single (.aside hbatches hserial))

theorem passesQueues : PassesQueues ValueStep where
  alter := fun h => .aside (by rw [h]) (Nat.le_of_eq (by rw [h]))
  pushed := fun _ _ => .note rfl
  woken := fun _ _ => .note rfl
  handedOut := fun _ _ => .note rfl

theorem of_libraryStep (h : LibraryStep A P w w') : ValueSteps w w' := by
  cases h with
  | aside haside => exact .single (.aside haside.batches haside.serial)
  | note hincidental => exact .single (.note hincidental.dataOf?)
  | createEndpoint | setToggle | advanceToggle | wait =>
      exact aside_noted rfl (.of_batches rfl (Nat.le_refl _))
  | resetToggles =>
      refine .tail (steps_resetEach (fun _ _ => ?_) _) (.note rfl)
      exact aside_noted rfl (.of_batches rfl (Nat.le_refl _))
  | call hasked =>
      exact aside_noted (Occurrence.dataOf?_of_asked hasked) (.of_batches rfl (Nat.le_refl _))
  | install | uninstallDevice | giveUpTable => exact noted_aside rfl rfl (Nat.le_refl _)
  | uninstall target hslot =>
      obtain ⟨_, -, rfl⟩ := State.uninstall?_eq_some hslot
      exact noted_aside rfl rfl (Nat.le_refl _)
  | addBus | addTable | addQueue | race | addWaker => exact .single (.aside rfl (Nat.le_refl _))
  | arrive q c => exact passesQueues.arrived q c
  | hand => exact passesQueues.handed _ _ _

theorem of_batchStep (h : BatchStep A w w') : ValueSteps w w' := by
  cases h with
  | rename => exact .single (.aside rfl (Nat.le_refl _))
  | edit | detach =>
      exact .single (.alter (.of_batch rfl (Nat.le_refl _) (fun _ => rfl) fun _ h => h))
  | farewell => exact aside_noted rfl (.of_batches rfl (Nat.le_refl _))
  | giveUp =>
      exact aside_noted rfl (.of_batch rfl (Nat.le_refl _) (fun _ => rfl) fun _ _ => rfl)
  | attach => exact aside_noted rfl (.of_batch rfl (Nat.le_succ _) (fun _ => rfl) fun _ h => h)
  | invoke | stick | perish | finish => exact .single (.note rfl)
  | pass =>
      refine (aside_noted rfl ?_).trans (passesQueues.arrived _ _)
      exact .of_batch (Arena.modify_modify _ _ _ _) (Nat.le_refl _) (fun _ => rfl) fun _ h => h

end ValueStep

/-- The library and batches, apart from their values, go by such steps. -/
abbrev ValueWalk (play : Player) : Prop :=
  BatchWalk (StepsFrom World.Dated ValueStep) .all AnyToggleEvent play

theorem Player.GoesBy.valueWalk (hplay : play.GoesBy (StepsFrom World.Dated ValueStep) .all) :
    ValueWalk play where
  step := fun h => .single fun _ => ValueStep.of_libraryStep h
  known := fun h w => h w (Repertoire.knows_all w.state)
  run := hplay.run none
  batchStep := fun h => .single fun _ => ValueStep.of_batchStep h
  runHaving := hplay.run _

/-! ## Values -/

/-- A value that was taken away from its batch is gone. -/
theorem World.Dated.gone {a : Attachment} (hw : w.Dated)
    (hdata : (w.state.batches.get b).data = some a) :
    (w.alter (·.detachData b)).Gone b a.serial := by
  refine ⟨hw b a hdata, ?_⟩
  rw [World.alter_state, State.detachData,
    Arena.get_modify_self _ _ _ (State.index_lt_of_data hdata)]
  simp

/-- A value that left its batch is destroyed. -/
theorem Attachment.ensures_destroy_valueSteps (h : ValueWalk play) (hw : w.Dated) (a : Attachment)
    (hgone : w.Gone b a.serial) :
    Ensures (a.destroy play b) w fun _ w' => ValueSteps w w' := by
  unfold destroy
  rw [ensures_ensuring]
  refine Ensures.mono (Follows.ensures_valueSteps (h.releaseAll a.value.captured) hw)
    fun _ w' hr => ?_
  have hgone' := hr.gone hgone
  exact hr.tail (.perish _ hgone'.1 hgone'.2)

namespace Batch

/-- A value takes the place of another one at once; the other one is destroyed after that. -/
theorem valueSteps_attachData (h : ValueWalk play) (value : DataValue) :
    GoesByValueSteps (attachData play b value) := by
  refine follows_from fun w hw => ?_
  have hput : ValueStep w _ := .put b value
  unfold attachData
  rw [ensures_bind, ensures_takeData?]
  cases hdata : (w.state.batches.get b).data with
  | none =>
      simp only [then_ok, ensures_bind, ensures_getState, ensures_modifyState, ensures_record,
        ensures_pure]
      have hnone := State.detachData_of_none hdata
      rw [show (w.alter fun s => (s.detachData b).attachData b value) =
        w.alter (·.attachData b value) by rw [World.alter, hnone, World.alter]] at hput
      exact .single hput
  | some replaced =>
      simp only [then_ok, ensures_bind, ensures_getState, ensures_modifyState, ensures_record]
      have hold := hw b replaced hdata
      have hgone : World.Gone b replaced.serial
          ((w.alter fun s => (s.detachData b).attachData b value).note
            (.dataAttached b w.state.serial)) := by
        refine ⟨Nat.lt_succ_of_lt hold, fun hn => ?_⟩
        obtain ⟨a, ha, hsame⟩ := Option.map_eq_some_iff.mp hn
        have hnew : (((w.state.detachData b).attachData b value).batches.get b).data =
            some ⟨w.state.serial, value⟩ := by
          rw [State.attachData, State.detachData, Arena.modify_modify,
            Arena.get_modify_self _ _ _ (State.index_lt_of_data hdata)]
          rfl
        obtain rfl := Option.some.inj (hnew.symm.trans ha)
        exact Nat.lt_irrefl _ (hsame ▸ hold)
      exact Ensures.mono (replaced.ensures_destroy_valueSteps h (hput.dated hw) hgone)
        fun _ _ hr => .head hput hr

theorem valueSteps_changeData (c : DataChange) : GoesByValueSteps (Session.changeData b c) := by
  refine follows_from fun w _ => ?_
  unfold Session.changeData
  rw [ensures_bind, ensures_getState, then_ok]
  cases hdata : (w.state.batches.get b).data with
  | none => exact .refl
  | some a =>
      dsimp only
      cases hchange : a.value.change? c with
      | none => exact .refl
      | some value => exact .single (.change hdata hchange)

/-- Who takes a value keeps it or destroys it. -/
theorem valueSteps_takeData (h : ValueWalk play) (type : DataType) (keep : Option String) :
    GoesByValueSteps (Session.takeData play b type keep) := by
  refine follows_from fun w hw => ?_
  unfold Session.takeData takeDataOf?
  simp only [ensures_bind, ensures_getState, then_ok]
  cases hdata : (w.state.batches.get b).data with
  | none => exact .refl
  | some a =>
      by_cases htype : a.value.type = type
      case neg =>
        simp only [if_neg htype]
        exact .refl
      case pos =>
        simp only [if_pos htype, ensures_bind, ensures_takeData?, hdata, ensures_record,
          ensures_pure, then_ok]
        have htake : ValueStep w _ := .take hdata
        have hlater := htake.dated hw
        have hgone := hw.gone hdata
        obtain ⟨serial, value⟩ := a
        cases value with
        | handle e =>
            simp only [ensures_bind, ensures_getState, then_ok]
            refine Ensures.mono (Follows.ensures_valueSteps (h.keepOrRelease keep e) hlater)
              fun r _ hr => ?_
            cases r <;> exact .head htake hr
        | number | text | noisy =>
            simp only [ensures_bind, ensures_getState, then_ok]
            refine Ensures.mono (Attachment.ensures_destroy_valueSteps h hlater _ hgone)
              fun r _ hr => ?_
            cases r <;> exact .head htake hr

/-! ## The end -/

/-- A release leaves the batch without an endpoint, whatever comes in between. -/
theorem ensures_release_valueSteps (h : ValueWalk play) (hw : w.Dated) :
    Ensures (release play b) w fun _ w' =>
      ValueSteps w w' ∧ (w'.state.batches.get b).endpoint = none := by
  refine Ensures.and (Follows.ensures_valueSteps (h.releaseBatch b) hw) ?_
  unfold release
  rw [ensures_bind, ensures_getState, then_ok]
  cases he : (w.state.batches.get b).endpoint with
  | none => exact he
  | some e =>
      rw [ensures_bind, ensures_modifyState, then_ok]
      have hb := State.index_lt_of_endpoint he
      have hrest : GoesByValueSteps (do
          record (.endpointGivenUp b e)
          Endpoint.release play e
          let reply ← Bus.batchFarewell play (w.state.busOf e) b
          record (.batchReleased b reply)) :=
        Follows.bind (fun _ => .single fun _ => .single (.note rfl)) fun _ =>
          (h.release e).bind fun _ => (h.batchFarewell _ b).bind fun _ => h.record trivial
      have hdetach : ValueStep w (w.alter (·.detachEndpoint b)) :=
        .alter (.of_batch rfl (Nat.le_refl _) (fun _ => rfl) fun _ _ => rfl)
      refine Ensures.mono (hrest.ensures_valueSteps (hdetach.dated hw)) fun _ w' hr =>
        hr.released ?_ ?_
      · simpa [State.detachEndpoint] using hb
      · exact congrArg Batch.endpoint (Arena.get_modify_self _ _ _ hb)

/-- The handler of a released batch goes, and the batch stays released. -/
theorem ensures_shedHandler_valueSteps (h : ValueWalk play) (hw : w.Dated)
    (he : (w.state.batches.get b).endpoint = none) :
    Ensures (do
      match ← takeHandler? b with
      | none => pure ()
      | some handler => handler.destroy play b) w fun _ w' =>
        ValueSteps w w' ∧ (w'.state.batches.get b).endpoint = none := by
  rw [ensures_bind, ensures_takeHandler?]
  cases hhandler : (w.state.batches.get b).handler with
  | none => exact ⟨.refl, he⟩
  | some handler =>
      have hb := State.index_lt_of_handler hhandler
      have hshed : ValueStep w (w.alter (·.detachHandler b)) :=
        .alter (.of_batch rfl (Nat.le_refl _) (fun _ => rfl) fun _ h => h)
      simp only [then_ok]
      refine Ensures.mono (Follows.ensures_valueSteps (h.destroyHandler b handler) (hshed.dated hw))
        fun _ w' hr => ?_
      exact ⟨.head hshed hr, ValueSteps.released (.head hshed hr) hb he⟩

/-- The value of a released batch goes. -/
theorem ensures_shedData_valueSteps (h : ValueWalk play) (hw : w.Dated)
    (he : (w.state.batches.get b).endpoint = none) :
    Ensures (do
      match ← takeData? b with
      | none => pure ()
      | some a => a.destroy play b) w fun _ w' => ValueSteps w w' := by
  rw [ensures_bind, ensures_takeData?]
  cases hdata : (w.state.batches.get b).data with
  | none => exact .refl
  | some a =>
      have hlost : ValueStep w (w.alter (·.detachData b)) := .lose hdata he
      simp only [then_ok]
      exact Ensures.mono (a.ensures_destroy_valueSteps h (hlost.dated hw)
        (hw.gone hdata)) fun _ _ hr => .head hlost hr

theorem valueSteps_endAfter (h : ValueWalk play) {body : Run Unit}
    (hbody : GoesByValueSteps body) :
    GoesByValueSteps (endAfter play b body) := by
  refine follows_from fun w hw => ?_
  unfold endAfter destroyBelongings
  simp only [ensures_ensuring]
  refine Ensures.mono (hbody.ensures_valueSteps hw) fun _ w₁ h₁ => ?_
  have hw₁ := h₁.dated hw
  refine Ensures.mono (ensures_release_valueSteps h hw₁) fun _ w₂ h₂ => ?_
  have hw₂ := h₂.1.dated hw₁
  refine Ensures.mono (ensures_shedHandler_valueSteps h hw₂ h₂.2) fun _ w₃ h₃ => ?_
  refine Ensures.mono (ensures_shedData_valueSteps h (h₃.1.dated hw₂) h₃.2) fun _ w₄ h₄ => ?_
  rw [ensures_record]
  exact (((h₁.trans h₂.1).trans h₃.1).trans h₄).tail (.note rfl)

theorem valueSteps_build (h : ValueWalk play) (e : Key Endpoint) : GoesByValueSteps (build e) := by
  refine (h.acquire e).bind fun _ => follows_from fun w _ => ?_
  simp only [ensures_bind, ensures_getState, ensures_modifyState, ensures_record, ensures_pure,
    then_ok]
  exact .single (.build e)

end Batch

theorem Player.GoesBy.valueSession
    (hplay : play.GoesBy (StepsFrom World.Dated ValueStep) .all) :
    SessionWalk (StepsFrom World.Dated ValueStep) .all AnyToggleEvent play where
  toBatchWalk := hplay.valueWalk
  build := Batch.valueSteps_build hplay.valueWalk
  attachData := fun _ => Batch.valueSteps_attachData hplay.valueWalk
  changeData := fun _ => Batch.valueSteps_changeData
  takeData := fun _ => Batch.valueSteps_takeData hplay.valueWalk
  endAfter := fun _ _ hbody => Batch.valueSteps_endAfter hplay.valueWalk hbody

/-! ## Sessions -/

namespace Session

theorem dated_empty : World.empty.Dated := by
  intro b a ha
  rw [World.empty, Arena.get_of_size_le _ b (Nat.zero_le _)] at ha
  cases ha

theorem ensures_carryOut_valueSteps (hw : w.Dated) (limit : Nat) (command : Command) :
    Ensures (carryOut (player limit) none command) w fun _ w' => ValueSteps w w' := by
  have hplay := player_goesBy (fun _ h => h.valueSession) limit
  exact Follows.ensures_valueSteps (hplay.valueSession.carryOut none trivial) hw

theorem Idle.valueSteps (h : Idle w) : ValueSteps .empty w :=
  StepsFrom.of_all (h.with_all.follows fun _ hplay => hplay.valueSession)
    (fun _ _ => ValueStep.dated) dated_empty

theorem Reachable.valueSteps (h : Reachable w) : ValueSteps .empty w := by
  cases h with
  | idle h => exact h.valueSteps
  | amid h hm _ => exact ValueSteps.moment h.valueSteps hm

end Session

theorem World.stored_empty : World.empty.Stored := by
  have hblank : ∀ b, World.empty.state.batches.get b = default :=
    fun b => Arena.get_of_size_le _ b (Nat.zero_le _)
  constructor
  case dated => exact Session.dated_empty
  case held | stems | whole =>
    intro b a ha
    rw [hblank] at ha
    cases ha
  case empty => exact fun b he hnone => rfl
  case old => exact fun b n hn => absurd rfl hn
  case taken => exact fun m earlier hm => by simp [World.empty] at hm

theorem ValueSteps.stored (h : ValueSteps .empty w) : w.Stored :=
  kept_of_steps (fun _ _ => ValueStep.stored) h World.stored_empty

/-- In a world that user code finds, the record tells which values batches have. -/
theorem Session.Reachable.stored (h : Session.Reachable w) : w.Stored :=
  h.valueSteps.stored

end UsbTransfer
