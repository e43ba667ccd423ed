import UsbTransfer.Proofs.Commands

/-!
# Fair players

The commands on batches are orderly, and with them all commands are.  So a player is fair if the
scripts inside the scripts that it plays are played fairly, and this goes down to the innermost
script.
-/

namespace UsbTransfer
namespace Session

open Run

/-- The faults that are reserved for the misuses of batches: a transfer is scheduled a second
time, a setup packet is given to a batch that has no setup stage, and a batch without an endpoint
is to have toggles reset. -/
inductive Misuse (atHand : Option (Key Batch)) (s : State) : Command → Fault → Prop where
  | scheduledTwice {name : String} {b : Key Batch} (hmeant : meant? s atHand name = some b)
      (hphase : (s.transferOf b).phase = .scheduled) :
      Misuse atHand s (.schedule name) (.scheduledTwice (s.transferOf b).summary)
  | setupWithoutControl {name : String} {b : Key Batch} {setup : SetupPacket}
      (hmeant : meant? s atHand name = some b)
      (htype : (s.transferOf b).descriptor.transferType ≠ .control) :
      Misuse atHand s (.setSetup name setup)
        (.setupWithoutControl (s.transferOf b).descriptor.transferType)
  | batchReleased {name : String} {b : Key Batch} (hmeant : meant? s atHand name = some b)
      (hneeds : (s.transferOf b).NeedsReset) (hnone : (s.batches.get b).endpoint = none) :
      Misuse atHand s (.resetToggle name) .batchReleased

/-- User code gave up, or the command misuses a batch. -/
def Expected (atHand : Option (Key Batch)) (s : State) (command : Command) (fault : Fault) : Prop :=
  fault.Raised ∨ Misuse atHand s command fault

theorem Expected.external {atHand : Option (Key Batch)} {s : State} {command : Command}
    {fault : Fault} (h : Expected atHand s command fault) :
    fault.External := by
  rcases h with hraised | hmisuse
  · exact hraised.external
  · cases hmisuse <;> trivial

variable {play : Player} {hands : Hands} {w : World} {b : Key Batch}
  {atHand : Option (Key Batch)} {name : String}

/-! ## Creating and ending batches -/

theorem createBatch_obeys (hplay : play.Fair) (hw : w.Ready hands) (handle name : String) :
    Obeys hands (createBatch play handle name) w := by
  unfold Obeys Orderly createBatch
  simp only [ensures_bind, ensures_getState, then_ok]
  split
  · exact .refl hands w
  · next h hfind =>
      refine lending_orderly hplay hw (Names.mem_values_of_find? hfind)
        (fun _ h => h) fun w' hw' hloan => ?_
      unfold Orderly
      rw [ensures_bind]
      apply Ensures.mono (Batch.ensures_create hplay hw' hloan)
      intro r w₁ hr
      have hasked := World.asked_moves hands w' (w'.state.busOf h.endpoint) h.endpoint
      cases r with
      | error fault => exact ⟨hasked.trans hr.1, hr.2⟩
      | ok answer =>
          obtain ⟨⟨hlater, hown⟩, -⟩ := hr
          have hmoves := hasked.trans hlater
          rw [then_ok]
          cases answer with
          | error error => exact hmoves
          | ok b =>
              simp only [ensures_bind, ensures_getState, then_ok]
              exact (ensures_bind _ _ _ _).mp
                ((answered (keepBatch_orderly hplay (hmoves.ready hw') name (hown b rfl)) _).after
                  hmoves)

theorem newBatch_obeys (hplay : play.Fair) (hw : w.Ready hands) (handle name : String) :
    Obeys hands (newBatch play handle name) w := by
  refine withEndpoint_obeys handle fun h hfind => ?_
  unfold Obeys Orderly
  rw [ensures_bind]
  apply Ensures.mono (Batch.ensures_build hw (hw.sound.references_pos_of_find? hfind))
  intro r w₁ hr
  obtain ⟨rfl, hmoves, hown, -⟩ := hr
  simp only [ensures_bind, ensures_getState, then_ok]
  exact (ensures_bind _ _ _ _).mp
    ((answered (keepBatch_orderly hplay (hmoves.ready hw) name hown) _).after hmoves)

/-- A batch loses its name and then ends. -/
theorem endBatch_obeys (hplay : play.Fair) (hw : w.Ready hands) (name : String)
    (ending : Batch.Ending) :
    Obeys hands (endBatch name fun b => ending.run play b) w := by
  unfold Obeys Orderly endBatch
  rw [ensures_bind]
  apply Ensures.mono (ensures_takeBatch hw name)
  intro r w₁ hr
  obtain ⟨answer, rfl, hmoves, hown⟩ := hr
  rw [then_ok]
  cases answer with
  | error mistake => exact hmoves
  | ok b =>
      have hown := hown b rfl
      exact (answered (Batch.ending_orderly hplay (hmoves.ready hw) hown.loose hown.mayEnd
        hown.endpoint ending) _).after hmoves

/-! ## Using batches -/

theorem batchEndpoint_obeys (hplay : play.Fair) (hw : w.Ready hands) (b : Key Batch)
    (keep : Option String) :
    Obeys hands (batchEndpoint play b keep) w := by
  unfold Obeys Orderly batchEndpoint
  simp only [ensures_bind, ensures_getState, then_ok]
  split
  · exact .refl hands w
  · next e he =>
      have hreferences : 0 < (w.state.endpoints.get e).references :=
        hw.sound.counted.references_pos (State.handlesOn_pos_of_endpoint he)
      rw [ensures_bind, Endpoint.ensures_acquire hreferences]
      simp only [ensures_bind, ensures_getState, then_ok]
      exact keepOrRelease_after hplay hw (.acquire hw.sound .unlocked hreferences) keep _

theorem batchText_obeys (b : Key Batch) (style : Style) : Obeys hands (batchText b style) w := by
  cases style <;> exact Moves.refl hands w

theorem batchIsOn_obeys (b : Key Batch) (handle : String) :
    Obeys hands (batchIsOn b handle) w := by
  refine withEndpoint_obeys handle fun _ _ => ?_
  unfold Obeys Orderly
  simp only [ensures_bind, ensures_getState, then_ok]
  split <;> exact .refl hands w

/-- The plain data of a batch may be changed in one of the ways there are. -/
theorem changeTransfer_obeys (hb : hands.MayTouch b) {f : Transfer → Transfer}
    (hedit : (w.state.transferOf b).Edit (f (w.state.transferOf b))) :
    Obeys hands (changeTransfer b f) w := by
  unfold Obeys Orderly changeTransfer
  simp only [ensures_bind, Batch.ensures_modifyTransfer, then_ok, ensures_pure]
  exact .edit hb hedit

/-- Data that an operation may refuse are changed only if it does not. -/
theorem edit_orderly (hb : hands.MayTouch b) {P : Fault → Prop} {edited : Except Fault Transfer}
    (hedit : ∀ t, edited = .ok t → (w.state.transferOf b).Edit t)
    (hfault : ∀ fault, edited = .error fault → P fault) :
    Orderly hands P [] (fun _ => [])
      (do
        let transfer ← ofExcept edited
        Batch.modifyTransfer b fun _ => transfer) w := by
  unfold Orderly
  rw [ensures_bind]
  cases edited with
  | error fault => exact ⟨.refl hands w, hfault fault rfl⟩
  | ok t =>
      change Ensures (pure t) w _
      rw [ensures_pure, then_ok, Batch.ensures_modifyTransfer]
      exact .edit hb (hedit t rfl)

theorem setSetup_orderly {s : State} (hmeant : meant? s atHand name = some b)
    (hbatches : w.state.batches = s.batches) (hb : hands.MayTouch b) (setup : SetupPacket) :
    Orderly hands (Expected atHand s (.setSetup name setup)) [] (fun _ => []) (setSetup b setup)
      w := by
  refine answered (edit_orderly hb (fun t => .setSetup) fun fault h => ?_) _
  unfold Transfer.setSetup State.transferOf at h
  rw [hbatches] at h
  split at h
  · cases h
  · next htype =>
      cases h
      exact .inr (.setupWithoutControl hmeant htype)

theorem schedule_orderly {s : State} (hmeant : meant? s atHand name = some b)
    (hbatches : w.state.batches = s.batches) (hb : hands.MayTouch b) :
    Orderly hands (Expected atHand s (.schedule name)) [] (fun _ => []) (schedule b) w := by
  refine answered (edit_orderly hb (fun t => .schedule) fun fault h => ?_) _
  unfold Transfer.schedule State.transferOf at h
  rw [hbatches] at h
  split at h
  · cases h
  · next hphase =>
      cases h
      exact .inr (.scheduledTwice hmeant hphase)

theorem allocBuffer_obeys (hb : hands.MayTouch b) (length : Nat) (granted : Bool) :
    Obeys hands (allocBuffer b length granted) w := by
  unfold Obeys Orderly allocBuffer Batch.allocBuffer
  simp only [ensures_bind, ensures_getState, then_ok]
  split
  · have hrefused : Moves hands [] [] w (w.note (.bufferRefused b length)) :=
      .noteOf (o := .bufferRefused b length) trivial rfl hb (.inl rfl)
    exact hrefused
  · next t ht =>
      simp only [ensures_bind, Batch.ensures_modifyTransfer, then_ok, ensures_pure]
      exact .edit hb (.allocBuffer ht)

theorem write_obeys (hb : hands.MayTouch b) (start : Nat) (bytes : List UInt8) :
    Obeys hands (write b start bytes) w := by
  unfold Obeys Orderly write
  simp only [ensures_bind, ensures_getState, then_ok]
  split
  · exact .refl hands w
  · next t ht => exact changeTransfer_obeys hb (.write ht)

/-- Outside of its end, a batch that was released may be asked for a reset. -/
theorem resetToggle_orderly (hplay : play.Fair) {s : State}
    (hmeant : meant? s atHand name = some b) (hbatches : w.state.batches = s.batches)
    (hw : w.Ready hands) (hb : hands.Lent b) :
    Orderly hands (Expected atHand s (.resetToggle name)) [] (fun _ => []) (resetToggle play b)
      w := by
  unfold Orderly resetToggle
  rw [ensures_bind]
  apply Ensures.mono (Batch.ensures_resetToggles hplay hw (hw.loose_of_lent hb))
  intro r w₁ hr
  have hmoves := hr.moves hb.1
  cases r with
  | ok outcome => cases outcome <;> exact hmoves
  | error fault =>
      refine ⟨hmoves, ?_⟩
      cases hr with
      | released hneeds hnone =>
          unfold State.transferOf at hneeds
          rw [hbatches] at hneeds hnone
          exact .inr (.batchReleased hmeant hneeds hnone)
      | asked _ _ _ _ hr => exact .inl hr

/-! ## Handlers and values -/

theorem onComplete_obeys (hplay : play.Fair) (hw : w.Ready hands) (hb : hands.Lent b)
    (handler : HandlerSpec Script) :
    Obeys hands (onComplete play b handler) w := by
  unfold Obeys Orderly onComplete
  rw [ensures_bind]
  have hnone : ∀ e, ([] : List (Key Endpoint)).count e ≤ w.state.spare e :=
    fun e => Nat.zero_le _
  apply Ensures.mono (takeHandles_orderly hplay handler.captured hw hnone)
  intro r w₁ hr
  cases r with
  | error fault => exact hr
  | ok answer =>
      rw [then_ok]
      cases answer with
      | error mistake => exact hr
      | ok captured =>
          have hmoves : Moves hands [] (Item.references captured) w w₁ := hr
          refine (answered (Batch.attachHandler_orderly hplay (hmoves.ready hw) hb
            hmoves.spare_taken ?_) _).after hmoves
          intro q hforward
          cases hforward

theorem toQueue_obeys (hplay : play.Fair) (hw : w.Ready hands) (hb : hands.Lent b)
    (queue : String) :
    Obeys hands (toQueue play b queue) w := by
  unfold Obeys Orderly toQueue
  simp only [ensures_bind, ensures_getState, then_ok]
  split
  · exact .refl hands w
  · next q hfind =>
      have hnone : ∀ e, ([] : List (Key Endpoint)).count e ≤ w.state.spare e :=
        fun e => Nat.zero_le _
      refine answered (Batch.attachHandler_orderly hplay hw hb hnone ?_) _
      rintro q' ⟨⟩
      exact hw.sound.queuesExist q (Names.mem_values_of_find? hfind)

/-- A value that is to be attached owns what was moved for it. -/
theorem takeValue_orderly (hw : w.Ready hands) (spec : DataSpec) :
    Orderly hands Fault.Raised []
      (fun value => Item.references ((value.toOption.map (·.captured)).getD []))
      (takeValue spec) w := by
  cases spec with
  | number | text | noisy => exact orderly_pure w rfl
  | handle name =>
      unfold Orderly takeValue
      rw [ensures_bind]
      apply Ensures.mono (ensures_takeHandle hw name)
      intro r w₁ hr
      obtain ⟨answer, rfl, hmoves⟩ := hr
      cases answer <;> exact hmoves

theorem setData_obeys (hplay : play.Fair) (hw : w.Ready hands) (hb : hands.Lent b)
    (spec : DataSpec) :
    Obeys hands (setData play b spec) w := by
  refine (takeValue_orderly hw spec).bind fun answer w₁ hmoves => ?_
  cases answer with
  | error mistake => exact obeys_pure _
  | ok value =>
      exact answered (Batch.attachData_orderly hplay (hmoves.ready hw) hb
        (Moves.spare_taken hmoves)) _

theorem getData_obeys (b : Key Batch) (type : DataType) : Obeys hands (getData b type) w := by
  unfold Obeys Orderly getData
  simp only [ensures_bind, ensures_getState, then_ok]
  split <;> exact .refl hands w

theorem changeData_obeys (hb : hands.MayTouch b) (change : DataChange) :
    Obeys hands (changeData b change) w := by
  unfold Obeys Orderly changeData
  simp only [ensures_bind, ensures_getState, then_ok]
  split
  · exact .refl hands w
  · next a hdata =>
      split
      · exact .refl hands w
      · next value hchange => exact Moves.changeData hb hdata hchange

/-- A value that is taken out is either kept by name or destroyed, with what it owns. -/
theorem takeData_obeys (hplay : play.Fair) (hw : w.Ready hands) (hb : hands.Lent b)
    (type : DataType) (keep : Option String) :
    Obeys hands (takeData play b type keep) w := by
  unfold Obeys Orderly takeData
  rw [ensures_bind]
  apply Ensures.mono (Batch.ensures_takeDataOf? hw hb type)
  intro r w₁ hr
  obtain ⟨taken, rfl, hmoves, htaken⟩ := hr
  rw [then_ok]
  cases taken with
  | none => exact hmoves
  | some a =>
      have htaken := htaken a rfl
      simp only [Option.map_some, Option.getD_some] at hmoves
      have hready := hmoves.ready hw
      have hdestroyed : ∀ answer : Answer, Ensures (a.destroy play b) w₁
          (Then (fun _ => pure (Except.ok answer : Result))
            (Account hands Fault.Raised [] (fun _ => []) w)) := by
        intro answer
        apply Ensures.mono (Belonging.destroy_orderly hplay hready hb.1
          (hready.loose_of_lent hb) (.data a) hmoves.spare_taken)
        intro r w₂ hr
        have hdestroy : Moves hands (Item.references a.value.captured) [] w₁ w₂ :=
          hr.moves.forget (htaken.of_adds hr.moves.changes.adds)
        have hall : Moves hands [] [] w w₂ := hmoves.cancel hdestroy
        cases r with
        | ok _ => exact hall
        | error fault => exact ⟨hall, hr.allowed⟩
      cases hvalue : a.value with
      | handle e =>
          rw [hvalue] at hmoves
          simp only [hvalue, ensures_bind, ensures_getState, then_ok]
          exact keepOrRelease_after hplay hw hmoves keep _
      | number | text | noisy =>
          simp only [hvalue, ensures_bind, ensures_getState, then_ok]
          exact hdestroyed _

/-! ## All commands -/

/-- Only user code and the misuses of batches interrupt a command. -/
theorem carryOut_orderly (hplay : play.Fair) (hw : w.Ready hands) {atHand : Option (Key Batch)}
    (hatHand : ∀ b, atHand = some b → hands.Lent b) (command : Command) :
    Orderly hands (Expected atHand w.state command) [] (fun _ => [])
      (carryOut play atHand command) w := by
  have hobeys : ∀ {m : Run Result}, Obeys hands m w →
      Orderly hands (Expected atHand w.state command) [] (fun _ => []) m w :=
    fun h => h.weaken hands.within_refl fun _ => .inl
  have hmeant : ∀ (name : String) {act : Key Batch → Run Result},
      (∀ (others : Hands) (b : Key Batch) (w' : World), w'.Ready others → others.Lent b →
        meant? w.state atHand name = some b → w'.state.batches = w.state.batches →
          Orderly others (Expected atHand w.state command) [] (fun _ => []) (act b) w') →
        Orderly hands (Expected atHand w.state command) [] (fun _ => [])
          (onBatch play atHand name act) w :=
    fun name _ hact => onBatch_orderly hplay hw hatHand name (fun _ => .inl) hact
  have hbatch : ∀ (name : String) {act : Key Batch → Run Result},
      (∀ (others : Hands) (b : Key Batch) (w' : World), w'.Ready others → others.Lent b →
        Obeys others (act b) w') →
        Orderly hands (Expected atHand w.state command) [] (fun _ => [])
          (onBatch play atHand name act) w :=
    fun name _ hact => hmeant name fun others b w' hw' hb _ _ =>
      (hact others b w' hw' hb).weaken others.within_refl fun _ => .inl
  cases command with
  | addBus name plan => exact hobeys (addBus_obeys hw name plan)
  | resetOnBus bus target scope => exact hobeys (resetOnBus_obeys hplay hw bus target scope)
  | addEndpoint bus descriptor handle =>
      exact hobeys (addEndpoint_obeys hplay hw bus descriptor handle)
  | addReference handle copy => exact hobeys (addReference_obeys hplay hw handle copy)
  | releaseHandle handle => exact hobeys (releaseHandle_obeys hplay hw handle)
  | sameEndpoint a b => exact hobeys (sameEndpoint_obeys a b)
  | endpointInfo handle => exact hobeys (endpointInfo_obeys handle)
  | endpointText handle style => exact hobeys (endpointText_obeys handle style)
  | referenceCount handle => exact hobeys (referenceCount_obeys handle)
  | toggle handle => exact hobeys (toggle_obeys handle)
  | setToggle handle value => exact hobeys (setToggle_obeys handle value)
  | advanceToggle handle => exact hobeys (advanceToggle_obeys handle)
  | addTable name => exact hobeys (addTable_obeys hplay hw name)
  | dropTable table => exact hobeys (dropTable_obeys hplay hw table)
  | register table handle => exact hobeys (register_obeys hplay hw table handle)
  | find table target keep => exact hobeys (find_obeys hplay hw table target keep)
  | remove table target keep => exact hobeys (remove_obeys hplay hw table target keep)
  | removeDevice table address keep => exact hobeys (removeDevice_obeys hplay hw table address keep)
  | resetTable table target scope => exact hobeys (resetTable_obeys hw table target scope)
  | tableSize table => exact hobeys (tableSize_obeys hw table)
  | createBatch handle batch => exact hobeys (createBatch_obeys hplay hw handle batch)
  | newBatch handle batch => exact hobeys (newBatch_obeys hplay hw handle batch)
  | batchInfo batch => exact hbatch batch fun others _ w' _ _ => Moves.refl others w'
  | batchText batch style => exact hbatch batch fun _ b _ _ _ => batchText_obeys b style
  | batchEndpoint batch keep =>
      exact hbatch batch fun _ b _ hw' _ => batchEndpoint_obeys hplay hw' b keep
  | batchIsOn batch handle => exact hbatch batch fun _ b _ _ _ => batchIsOn_obeys b handle
  | setScope batch scope =>
      exact hbatch batch fun _ _ _ _ hb => changeTransfer_obeys hb.1 (.setScope _ scope)
  | setSetup batch setup =>
      exact hmeant batch fun _ _ _ _ hb h hsame => setSetup_orderly h hsame hb.1 setup
  | setBuffer batch data =>
      exact hbatch batch fun _ _ _ _ hb => changeTransfer_obeys hb.1 (.setBuffer _ data)
  | allocBuffer batch length granted =>
      exact hbatch batch fun _ _ _ _ hb => allocBuffer_obeys hb.1 length granted
  | write batch start bytes => exact hbatch batch fun _ _ _ _ hb => write_obeys hb.1 start bytes
  | complete batch status actual =>
      exact hbatch batch fun _ _ _ _ hb => changeTransfer_obeys hb.1 (.complete _ status actual)
  | schedule batch => exact hmeant batch fun _ _ _ _ hb h hsame => schedule_orderly h hsame hb.1
  | resetToggle batch =>
      exact hmeant batch fun _ _ _ hw' hb h hsame => resetToggle_orderly hplay h hsame hw' hb
  | onComplete batch handler =>
      exact hbatch batch fun _ _ _ hw' hb => onComplete_obeys hplay hw' hb handler
  | toQueue batch queue => exact hbatch batch fun _ _ _ hw' hb => toQueue_obeys hplay hw' hb queue
  | setData batch value => exact hbatch batch fun _ _ _ hw' hb => setData_obeys hplay hw' hb value
  | getData batch type => exact hbatch batch fun _ b _ _ _ => getData_obeys b type
  | changeData batch change => exact hbatch batch fun _ _ _ _ hb => changeData_obeys hb.1 change
  | takeData batch type keep =>
      exact hbatch batch fun _ _ _ hw' hb => takeData_obeys hplay hw' hb type keep
  | finish batch => exact hobeys (endBatch_obeys hplay hw batch .finish)
  | abort batch => exact hobeys (endBatch_obeys hplay hw batch .abort)
  | destroy batch => exact hobeys (endBatch_obeys hplay hw batch .destroy)
  | addQueue name => exact hobeys (addQueue_obeys hw name)
  | shareQueue queue name => exact hobeys (shareQueue_obeys hw queue name)
  | dropQueue queue => exact hobeys (dropQueue_obeys hw queue)
  | push queue completion => exact hobeys (push_obeys hplay hw queue completion)
  | tryNext queue => exact hobeys (tryNext_obeys hw queue)
  | nextText queue style => exact hobeys (nextText_obeys hw queue style)
  | queueSize queue => exact hobeys (queueSize_obeys hw queue)
  | addWaker name code => exact hobeys (addWaker_obeys hw name code)
  | poll queue route waker => exact hobeys (poll_obeys hw queue route waker)
  | pollRacing queue route pushed => exact hobeys (pollRacing_obeys hplay hw queue route pushed)
  | raise message => exact ⟨.refl hands w, .inl ⟨message, rfl⟩⟩
  | unreadable mistake => exact hobeys (obeys_pure _)

theorem carryOut_obeys (hplay : play.Fair) (hw : w.Ready hands) {atHand : Option (Key Batch)}
    (hatHand : ∀ b, atHand = some b → hands.Lent b) (command : Command) :
    Orderly hands Fault.External [] (fun _ => []) (carryOut play atHand command) w :=
  (carryOut_orderly hplay hw hatHand command).weaken hands.within_refl fun _ => Expected.external

/-! ## Players -/

/-- The result of a command that came to an outcome. -/
def resultOf : Except Fault Result → Result
  | .ok result => result
  | .error fault => .error (.faulted fault)

@[simp]
theorem ensures_settle (m : Run Result) (w : World) (Q : Except Fault Result → World → Prop) :
    Ensures (settle m) w Q ↔ Ensures m w fun r w' => Q (.ok (resultOf r)) w' := by
  unfold settle
  rw [ensures_bind, ensures_attempt]
  constructor <;> intro h <;> refine h.mono fun r w' hr => ?_ <;> cases r <;> exact hr

/-- In a script only the command to give up ends in a fault. -/
theorem playCommand_orderly (hplay : play.Fair) (hw : w.Ready hands)
    {atHand : Option (Key Batch)} (hatHand : ∀ b, atHand = some b → hands.Lent b)
    (command : Command) :
    Orderly hands Fault.Raised [] (fun _ => []) (playCommand play atHand command) w := by
  unfold playCommand
  split
  · next message => exact ⟨.refl hands w, message, rfl⟩
  · unfold Orderly
    rw [ensures_bind, ensures_settle]
    apply Ensures.mono (carryOut_obeys hplay hw hatHand _)
    intro r w' hr
    have hended : Moves hands [] [] w' (w'.note (.stepEnded (resultOf r))) :=
      .noteAside .unlocked trivial rfl fun _ => rfl
    exact hr.moves.trans hended

/-- However many scripts may run inside each other, they are played fairly. -/
theorem player_fair (limit : Nat) : (player limit).Fair := by
  induction limit with
  | zero =>
      intro hands atHand script w _ _
      have hdeep : Moves (hands.lendAny atHand) [] [] w (w.note .tooDeep) :=
        .noteAside .unlocked trivial rfl fun _ => rfl
      exact hdeep
  | succ limit ih =>
      intro hands atHand script w hw hatHand
      have hready : w.Ready (hands.lendAny atHand) := by
        cases atHand with
        | none => exact hw
        | some b => exact hw.lend (hatHand b rfl).2
      have hlent : ∀ b, atHand = some b → (hands.lendAny atHand).Lent b := by
        rintro b rfl
        exact (hatHand b rfl).1.lent
      change Orderly _ _ _ _ (script.forM (playCommand (player limit) atHand)) w
      clear hw hatHand
      induction script generalizing w with
      | nil => exact orderly_pure w rfl
      | cons command rest ihrest =>
          exact Orderly.bind (playCommand_orderly ih hready hlent command)
            fun _ w' hmoves => ihrest w' (hmoves.ready hready)

end Session
end UsbTransfer
