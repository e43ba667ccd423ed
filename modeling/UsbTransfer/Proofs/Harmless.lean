import UsbTransfer.Proofs.Misuse
import UsbTransfer.Proofs.Omissions.Failures

/-!
# Failed calls are harmless

A failed call leaves the state as it was, or what the release of a refused handle leaves.  So it
can be omitted: the worlds after it and without it mirror each other, and mirroring worlds are told
apart by nothing that comes later.  In a script that user code plays amid an operation the same
holds, by induction on how many scripts may run inside each other.
-/

namespace UsbTransfer

open Run

namespace Session

variable {play play' : Player} {w w' : World} {atHand : Option (Key Batch)} {command : Command}

/-! ## One call -/

theorem conduct_of_ensures {P : Result → World → Prop}
    (h : Ensures (carryOut play atHand command) w fun r w' => P (resultOf r) w') :
    P (conduct play atHand command w).1 (conduct play atHand command w).2 := by
  have hsettled := (ensures_settle _ w fun r w' => P (resultOf r) w').mpr h
  unfold Ensures at hsettled
  unfold conduct
  cases hrun : settle (carryOut play atHand command) w <;> rw [hrun] at hsettled <;>
    exact hsettled

/-- A call comes to the same in mirroring worlds. -/
theorem conduct_mirrors (hplay : play.Mirrors play') (hw : w.Mirrors w')
    (atHand : Option (Key Batch)) (command : Command) :
    (conduct play' atHand command w').1 = (conduct play atHand command w).1 ∧
      (conduct play atHand command w).2.Mirrors (conduct play' atHand command w').2 := by
  have hend := alike_settled hplay atHand (.refl (.same command)) w w' hw
  unfold conduct
  generalize settle (carryOut play atHand command) w = r,
    settle (carryOut play' atHand command) w' = r' at hend ⊢
  cases hend with
  | ok hresult hw => exact ⟨hresult.same trivial, hw⟩
  | error fault hw => exact ⟨rfl, hw⟩

theorem of_mirrors (hplay : play.Mirrors play') (hw : w.Mirrors w')
    (atHand : Option (Key Batch)) (command : Command) :
    Errand.of play' atHand command w' = Errand.of play atHand command w := by
  obtain ⟨hresult, hmirrors⟩ := conduct_mirrors hplay hw atHand command
  unfold Errand.of
  rw [hresult, hw.state, hmirrors.state]

/-- What a failed call puts on record is a sign of failure. -/
theorem ofFailure_of_mark {o : Occurrence} {s : State} {r : Result}
    (hfailed : command.failsWith atHand w.state r = true) (hs : s.batches = w.state.batches)
    (hmark : command.mark? atHand w.state = some o) :
    Moment.OfFailure ⟨o, s⟩ := by
  unfold Command.mark? at hmark
  split at hmark
  · obtain ⟨b, -, rfl⟩ := Option.map_eq_some_iff.mp hmark
    trivial
  · next batch =>
      obtain ⟨b, hmeant, rfl⟩ := Option.map_eq_some_iff.mp hmark
      change (s.batches.get b).endpoint = none
      rw [hs]
      exact endpoint_of_released (released_of_failsWith hfailed) hmeant
  · cases hmark

/-- Apart from a refused registration, a failed call leaves everything as it was. -/
theorem conduct_unmoved (hw : w.state.Ordered)
    (hfailed : (Errand.of play atHand command w).failed = true)
    (hregister : ∀ table handle, command ≠ .register table handle) :
    w.Unmoved (command.mark? atHand w.state) (conduct play atHand command w).2 :=
  conduct_of_ensures (P := fun r w' => command.failsWith atHand w.state r = true →
    w.Unmoved (command.mark? atHand w.state) w') (ensures_carryOut_unmoved hw hregister) hfailed

theorem mirrors_of_unmoved (hw : w.Mirrors w')
    (hfailed : (Errand.of play atHand command w).failed = true)
    (hregister : ∀ table handle, command ≠ .register table handle) :
    (conduct play atHand command w).2.Mirrors w' := by
  obtain ⟨hstate, s, hs, hhistory⟩ := conduct_unmoved hw.ordered hfailed hregister
  refine ⟨⟨hw.state.trans hstate.symm, ?_⟩, hstate.symm ▸ hw.ordered⟩
  rw [hhistory]
  cases hmark : command.mark? atHand w.state with
  | none => exact hw.history
  | some o => exact .omitted (ofFailure_of_mark hfailed hs hmark) hw.history

/-- A refused registration comes to what the release of its handle comes to. -/
theorem mirrors_of_refused (hplay : play.Mirrors play') (hw : w.Mirrors w') {table handle : String}
    (hfailed : (Errand.of play atHand (.register table handle) w).failed = true) :
    (conduct play' atHand (.releaseHandle handle) w').1 = .ok .done ∧
      (conduct play atHand (.register table handle) w).2.Mirrors
        (conduct play' atHand (.releaseHandle handle) w').2 := by
  have hregister : Ensures (carryOut play atHand (.register table handle)) w fun r w₁ =>
      (∃ error, resultOf r = .error (.failed error)) →
        Ensures (releaseHandle play' handle) w' fun r' w₁' =>
          r' = .ok (.ok .done) ∧ w₁.Mirrors w₁' :=
    ensures_register_released hplay hw table handle
  have hreleased := conduct_of_ensures (P := fun r w₁ => (∃ error, r = .error (.failed error)) →
    Ensures (releaseHandle play' handle) w' fun r' w₁' => r' = .ok (.ok .done) ∧ w₁.Mirrors w₁')
    hregister (failsAs_of_failsWith hfailed)
  have hcarried : Ensures (carryOut play' atHand (.releaseHandle handle)) w' fun r' w₁' =>
      resultOf r' = .ok .done ∧
        (conduct play atHand (.register table handle) w).2.Mirrors w₁' := by
    refine Ensures.mono hreleased ?_
    rintro r' w₁' ⟨rfl, hmirrors⟩
    exact ⟨rfl, hmirrors⟩
  exact conduct_of_ensures (P := fun r' w₁' => r' = .ok .done ∧
    (conduct play atHand (.register table handle) w).2.Mirrors w₁') hcarried

/-- What is left of a failed call comes to what the call comes to. -/
theorem remnant_of_failed (hplay : play.Mirrors play') (hw : w.Mirrors w')
    (hfailed : (Errand.of play atHand command w).failed = true) :
    ((Errand.of play atHand command w).remnant = [] ∧
        (conduct play atHand command w).2.Mirrors w') ∨
      ∃ table handle, command = .register table handle ∧
        (Errand.of play atHand command w).remnant =
          [Errand.of play' atHand (.releaseHandle handle) w'] ∧
        (conduct play' atHand (.releaseHandle handle) w').1 = .ok .done ∧
        (conduct play atHand command w).2.Mirrors
          (conduct play' atHand (.releaseHandle handle) w').2 := by
  by_cases hregister : ∃ table handle, command = .register table handle
  · obtain ⟨table, handle, rfl⟩ := hregister
    obtain ⟨hdone, hmirrors⟩ := mirrors_of_refused hplay hw hfailed
    refine .inr ⟨table, handle, rfl, ?_, hdone, hmirrors⟩
    unfold Errand.remnant
    rw [if_pos hfailed]
    unfold Errand.of
    rw [hdone, hw.state, hmirrors.state]
  · have hother : ∀ table handle, command ≠ .register table handle :=
      fun table handle h => hregister ⟨table, handle, h⟩
    refine .inl ⟨?_, mirrors_of_unmoved hw hfailed hother⟩
    unfold Errand.remnant
    rw [if_pos hfailed]
    split
    · next h => exact absurd h (hother _ _)
    · rfl

theorem remnant_of_not_failed (hfailed : (Errand.of play atHand command w).failed ≠ true) :
    (Errand.of play atHand command w).remnant = [Errand.of play atHand command w] :=
  if_neg hfailed

/-- Of each call at most one is left, and that comes to what the call came to. -/
theorem remnant_cases (hplay : play.Mirrors play') (hw : w.Mirrors w')
    (atHand : Option (Key Batch)) (command : Command) :
    ((Errand.of play atHand command w).remnant = [] ∧
        (conduct play atHand command w).2.Mirrors w') ∨
      ∃ command', (Errand.of play atHand command w).remnant =
          [Errand.of play' atHand command' w'] ∧
        (conduct play atHand command w).2.Mirrors (conduct play' atHand command' w').2 := by
  by_cases hfailed : (Errand.of play atHand command w).failed = true
  · rcases remnant_of_failed hplay hw hfailed with hnone | ⟨_, _, -, hone, -, hmirrors⟩
    · exact .inl hnone
    · exact .inr ⟨_, hone, hmirrors⟩
  · refine .inr ⟨command, ?_, (conduct_mirrors hplay hw atHand command).2⟩
    rw [remnant_of_not_failed hfailed, of_mirrors hplay hw]

/-! ## Scripts -/

/-- In a script, a call that does not give up is on record with its result. -/
theorem playCommand_eq (h : ∀ message, command ≠ .raise message) :
    playCommand play atHand command w =
      .ok () ((conduct play atHand command w).2.note
        (.stepEnded (conduct play atHand command w).1)) := by
  have hsettle : ∀ m : Run Result, ∃ r w₁, settle m w = .ok r w₁ := by
    intro m
    unfold settle
    simp only [bind, EStateM.bind, attempt]
    cases m w <;> exact ⟨_, _, rfl⟩
  obtain ⟨r, w₁, hrun⟩ := hsettle (carryOut play atHand command)
  have hplay : playCommand play atHand command =
      (do
        let result ← settle (carryOut play atHand command)
        record (.stepEnded result)) := by
    cases command with
    | raise message => exact absurd rfl (h message)
    | _ => rfl
  rw [hplay]
  unfold conduct
  simp only [bind, EStateM.bind, hrun]
  rfl

/-- What is left of a call is played in its place. -/
theorem frugalCommand_of_remnant {c : Errand}
    (h : (Errand.of play atHand command w).remnant = [c]) :
    frugalCommand play atHand command w = playCommand play atHand c.command w := by
  unfold frugalCommand
  rw [h]
  exact congrFun (bind_pure_unit (x := playCommand play atHand c.command)) w

theorem mirrors_frugalCommand (hplay : play.Mirrors play') (atHand : Option (Key Batch))
    (command : Command) :
    Comparison.omissions.Agree (playCommand play atHand command)
      (frugalCommand play' atHand command) := by
  intro w w' hw
  have hsame := of_mirrors hplay hw atHand command
  by_cases hfailed : (Errand.of play atHand command w).failed = true
  · have hraise : ∀ message, command ≠ .raise message := by
      rintro message rfl
      exact (failsAs_of_failsWith hfailed).elim
    rw [playCommand_eq hraise]
    rcases remnant_of_failed hplay hw hfailed with
      ⟨hnone, hmirrors⟩ | ⟨table, handle, rfl, hone, hdone, hmirrors⟩
    · unfold frugalCommand
      rw [hsame, hnone]
      refine .ok rfl ⟨⟨hmirrors.state, .omitted ?_ hmirrors.history⟩, hmirrors.ordered⟩
      exact ⟨command, play, atHand, w, hfailed, rfl, rfl⟩
    · have hreleased : playCommand play' atHand (.releaseHandle handle) w' = _ :=
        playCommand_eq fun _ h => by cases h
      rw [frugalCommand_of_remnant (hsame ▸ hone)]
      change EndRelated _ _ _ (playCommand play' atHand (.releaseHandle handle) w')
      rw [hreleased, hdone]
      refine .ok rfl ⟨⟨hmirrors.state, ?_⟩, hmirrors.ordered⟩
      rw [World.note_history, World.note_history, hmirrors.state]
      exact .replaced ⟨play, atHand, w, hfailed, rfl, rfl⟩ hmirrors.history
  · rw [frugalCommand_of_remnant (hsame ▸ remnant_of_not_failed hfailed)]
    exact agree_playCommand hplay atHand (.refl (.same command)) w w' hw

theorem frugalPlayer_mirrors (limit : Nat) : (player limit).Mirrors (frugalPlayer limit) := by
  induction limit with
  | zero => exact fun _ _ _ _ => Comparison.agree_record .tooDeep
  | succ limit ih =>
      rintro atHand script _ ⟨-, hsame⟩
      obtain rfl := hsame trivial
      refine Comparison.agree_forM (List.forall₂_same.mpr fun _ _ => rfl) ?_
      rintro command _ rfl
      exact mirrors_frugalCommand ih atHand command

/-! ## Courses -/

/-- The calls that are left of one course are the calls of another one. -/
theorem calls_leftover (hplay : play.Mirrors play') (hw : w.Mirrors w') (commands : List Command) :
    calls play' ((leftover play commands w).map (·.command)) w' = leftover play commands w ∧
      (onward play commands w).Mirrors
        (onward play' ((leftover play commands w).map (·.command)) w') := by
  have hcalls : ∀ (play : Player) (command : Command) (rest : List Command) (w : World),
      calls play (command :: rest) w =
        Errand.of play none command w :: calls play rest (conduct play none command w).2 :=
    fun _ _ _ _ => rfl
  have honward : ∀ (play : Player) (command : Command) (rest : List Command) (w : World),
      onward play (command :: rest) w = onward play rest (conduct play none command w).2 :=
    fun _ _ _ _ => rfl
  unfold leftover
  induction commands generalizing w w' with
  | nil => exact ⟨rfl, hw⟩
  | cons command rest ih =>
      rw [hcalls, honward, List.flatMap_cons]
      rcases remnant_cases hplay hw none command with
        ⟨hnone, hmirrors⟩ | ⟨command', hone, hmirrors⟩
      · rw [hnone]
        exact ih hmirrors
      · rw [hone]
        obtain ⟨hrest, hlast⟩ := ih hmirrors
        exact ⟨congrArg (_ :: ·) hrest, hlast⟩

end Session

/-! ## A refused registration -/

/-- A table refuses the endpoint of a handle.  The reference of the handle is released, and that
is all, unless it was the last one: then the bus finds all tables and batches as they were, and all
endpoints but for that reference, and when it has done its work the endpoint is freed. -/
structure World.Rejects (play : Player) (t : Key Table) (handle : String) (e : Key Endpoint)
    (w w₁ w' : World) : Prop where
  matched : ∃ entry,
    (w.state.tables.get t).lookup? w.state.targetOf (w.state.targetOf e) = some entry
  released : (w.refuse t handle e).Loses e w₁
  tables : w₁.state.tables = w.state.tables
  batches : w₁.state.batches = w.state.batches
  endpoints : w₁.state.endpoints =
    w.state.endpoints.modify e fun x => { x with references := x.references - 1 }
  rest : 1 < (w.state.endpoints.get e).references ∧ w' = w₁ ∨
    (w.state.endpoints.get e).references = 1 ∧ ∃ reply, w' =
      ((play.run none (Hook.code?
        (w.state.buses.get (w.state.busOf e)).plan.endpointDestroy.current?)).worldAfter w₁).note
          (.endpointFreed e reply)

/-- After the loss of a reference only the bus of the endpoint does something, and only if that was
the last one. -/
theorem Endpoint.ensures_release_done {play : Player} (e : Key Endpoint) (w : World) :
    Ensures (release play e) w fun r w' => r = .ok () → ∃ w₁, w.Loses e w₁ ∧
      (1 < (w.state.endpoints.get e).references ∧ w' = w₁ ∨
        (w.state.endpoints.get e).references = 1 ∧ ∃ reply, w' =
          ((play.run none (Hook.code?
            (w.state.buses.get (w.state.busOf e)).plan.endpointDestroy.current?)).worldAfter
              w₁).note (.endpointFreed e reply)) := by
  unfold release
  simp only [ensures_bind, ensures_getState, then_ok]
  split
  · exact fun h => by cases h
  · next left hleft =>
      simp only [ensures_bind, ensures_modifyState, then_ok, ensures_record]
      by_cases hlast : left = 0
      case neg =>
        rw [if_neg hlast]
        have hshared : 1 < (w.state.endpoints.get e).references := by omega
        exact fun _ => ⟨_, .shared hshared, .inl ⟨hleft ▸ hshared, rfl⟩⟩
      subst hlast
      have hbus : (w.state.loseReference e).busOf e = w.state.busOf e :=
        w.state.endpoints.apply_get_modify e e _ Endpoint.bus fun _ => rfl
      rw [if_pos rfl]
      unfold free Bus.endpointFarewell
      simp only [ensures_bind, ensures_getState, then_ok, Bus.ensures_nextHook, ensures_record,
        World.note_state, World.alter_state, hbus]
      have hloses := @World.Loses.last e w
        { (w.state.buses.get (w.state.busOf e)).plan with
          endpointDestroy := (w.state.buses.get (w.state.busOf e)).plan.endpointDestroy.advance }
        hleft ⟨rfl, rfl⟩
      split
      · next hcurrent =>
          refine fun _ => ⟨_, hloses, .inr ⟨hleft, .declined, ?_⟩⟩
          rw [show (w.state.buses.get (w.state.busOf e)).plan.endpointDestroy.current? = none
            from hcurrent]
          rfl
      · next hook hcurrent =>
          simp only [ensures_bind]
          refine (ensures_worldAfter _ _).mono fun r w₂ hr => ?_
          cases r with
          | error fault => exact fun h => by cases h
          | ok _ =>
              refine fun _ => ⟨_, hloses, .inr ⟨hleft, hook.reply, ?_⟩⟩
              rw [show (w.state.buses.get (w.state.busOf e)).plan.endpointDestroy.current? =
                some hook from hcurrent]
              exact congrArg (World.note · _) hr

theorem World.Loses.endpoints {e : Key Endpoint} {w w' : World} (h : w.Loses e w') :
    w'.state.tables = w.state.tables ∧ w'.state.batches = w.state.batches ∧
      w'.state.endpoints =
        w.state.endpoints.modify e fun x => { x with references := x.references - 1 } := by
  cases h with
  | shared | last => exact ⟨rfl, rfl, rfl⟩

namespace Session

variable {play play' : Player} {w w' : World}

theorem ensures_register_rejects (table handle : String) (w : World) :
    Ensures (register play table handle) w fun r w' =>
      (∃ error, resultOf r = .error (.failed error)) →
        ∃ t h w₁, w.state.directory.tables.find? table = some t ∧
          w.state.directory.handles.find? handle = some h ∧
          w.Rejects play t handle h.endpoint w₁ w' := by
  refine ensures_register_refused table handle fun t h entry htable hnamed _ hlookup =>
    (Endpoint.ensures_release_done h.endpoint _).mono fun r w' hr hdone => ?_
  obtain ⟨w₁, hloses, hrest⟩ := hr hdone
  obtain ⟨htables, hbatches, hendpoints⟩ := hloses.endpoints
  exact ⟨t, h, w₁, htable, hnamed, ⟨entry, hlookup⟩, hloses, htables, hbatches, hendpoints, hrest⟩

end Session

/-! ## All calls -/

/-- What the calls of a player leave behind in a world when they fail. -/
structure World.Unharmed (play : Player) (w : World) : Prop where
  /-- Apart from refused registrations the state stays as it was.  No bus is called. -/
  unmoved : ∀ atHand command, (Errand.of play atHand command w).failed = true →
    (∀ table handle, command ≠ .register table handle) →
      w.Unmoved (command.mark? atHand w.state) (Session.conduct play atHand command w).2
  rejects : ∀ atHand table handle,
    (Errand.of play atHand (.register table handle) w).failed = true →
      ∃ t h w₁, w.state.directory.tables.find? table = some t ∧
        w.state.directory.handles.find? handle = some h ∧
        w.Rejects play t handle h.endpoint w₁
          (Session.conduct play atHand (.register table handle) w).2
  /-- Misuses are calls that fail. -/
  misuses : ∀ atHand command fault, Session.Misuse atHand w.state command fault →
    (Errand.of play atHand command w).result = .error (.faulted fault) ∧
      (Errand.of play atHand command w).failed = true
  /-- The value of another type is not handed out, and so the call fails. -/
  mistyped : ∀ atHand batch type keep b a, Session.meant? w.state atHand batch = some b →
    (w.state.batches.get b).data = some a → a.value.type ≠ type →
      (Errand.of play atHand (.takeData batch type keep) w).result = .ok .nothing ∧
        (Errand.of play atHand (.takeData batch type keep) w).failed = true

/-- Whatever comes next comes to the same in the two worlds, when the second player omits what it
omits and the calls from outside that fail are omitted. -/
structure World.Omits (play play' : Player) (w w' : World) : Prop where
  calls : ∀ commands, Session.calls play' ((Session.leftover play commands w).map (·.command)) w' =
    Session.leftover play commands w
  onward : ∀ commands, (Session.onward play commands w).Abridged
    (Session.onward play' ((Session.leftover play commands w).map (·.command)) w')
  scripts : ∀ atHand script, Ensures (play atHand script) w fun r w₁ =>
    Ensures (play' atHand script) w' fun r' w₁' => r' = r ∧ w₁.Abridged w₁'
  ending : ∀ commands, Ensures (Session.close play) (Session.onward play commands w) fun r w₁ =>
    Ensures (Session.close play')
      (Session.onward play' ((Session.leftover play commands w).map (·.command)) w')
      fun r' w₁' => r' = r ∧ w₁.Abridged w₁'

namespace Session

variable {play play' : Player} {w w' : World} {b : Key Batch}

theorem failed_of_misuse {atHand : Option (Key Batch)} {s : State} {command : Command}
    {fault : Fault} (h : Misuse atHand s command fault) :
    command.failsWith atHand s (.error (.faulted fault)) = true := by
  cases h with
  | scheduledTwice | setupWithoutControl => rfl
  | batchReleased hmeant _ hnone =>
      change State.isReleased _ _ _ = true
      rw [State.isReleased, hmeant, Option.any_some, hnone]
      rfl

/-- What leaves all names alone keeps its result when the batch gets its name back. -/
theorem ensures_onBatch_of_result {atHand : Option (Key Batch)} {name : String}
    {act : Key Batch → Run Result} {result : Result} (hw : w.state.Ordered)
    (hmeant : meant? w.state atHand name = some b)
    (hact : ∀ w₁, w₁.state.batches = w.state.batches →
      Ensures (act b) w₁ fun r w₂ => r = .ok result ∧ w₂.state.directory = w₁.state.directory) :
    Ensures (onBatch play atHand name act) w fun r _ => r = .ok result := by
  unfold meant? at hmeant
  unfold onBatch
  cases hatHand : (if name = atHandName then atHand else none) with
  | some b' =>
      rw [hatHand, Option.some_or, Option.some_inj] at hmeant
      subst hmeant
      exact (hact w rfl).mono fun _ _ hr => hr.1
  | none =>
      rw [hatHand, Option.none_or] at hmeant
      simp only [ensures_bind]
      rw [ensures_takeBatch_of_named hmeant, then_ok, ensures_ensuring]
      refine Ensures.mono (hact _ (by rfl)) fun r w₂ hr => ?_
      obtain ⟨rfl, hsame⟩ := hr
      rw [ensures_keepBatch_of_unnamed (by rw [hsame]; exact Names.Ordered.find?_erase hw name)]
      rfl

/-- A value of another type is not handed out. -/
theorem ensures_takeData_mistyped {atHand : Option (Key Batch)} {batch : String} {type : DataType}
    {keep : Option String} {a : Attachment} (hw : w.state.Ordered)
    (hmeant : meant? w.state atHand batch = some b)
    (hdata : (w.state.batches.get b).data = some a) (htype : a.value.type ≠ type) :
    Ensures (carryOut play atHand (.takeData batch type keep)) w fun r _ =>
      r = .ok (.ok .nothing) := by
  refine ensures_onBatch_of_result hw hmeant fun w₁ hbatches => ?_
  simp only [takeData, Batch.takeDataOf?, ensures_bind, ensures_getState, then_ok, hbatches, hdata,
    if_neg htype, ensures_pure]
  exact ⟨trivial, trivial⟩

theorem unharmed_of_ordered (hw : w.state.Ordered) (play : Player) : w.Unharmed play where
  unmoved := fun _ _ hfailed hregister => conduct_unmoved hw hfailed hregister
  rejects := by
    intro atHand table handle hfailed
    have hregister : Ensures (carryOut play atHand (.register table handle)) w fun r w' =>
        (∃ error, resultOf r = .error (.failed error)) →
          ∃ t h w₁, w.state.directory.tables.find? table = some t ∧
            w.state.directory.handles.find? handle = some h ∧
            w.Rejects play t handle h.endpoint w₁ w' :=
      ensures_register_rejects table handle w
    exact conduct_of_ensures (P := fun r w' => (∃ error, r = .error (.failed error)) →
      ∃ t h w₁, w.state.directory.tables.find? table = some t ∧
        w.state.directory.handles.find? handle = some h ∧
        w.Rejects play t handle h.endpoint w₁ w') hregister (failsAs_of_failsWith hfailed)
  misuses := by
    intro atHand command fault hmisuse
    have hresult : (Errand.of play atHand command w).result = .error (.faulted fault) :=
      conduct_of_ensures (P := fun r _ => r = .error (.faulted fault))
        (hmisuse.ensures_carryOut.mono fun r _ hr => congrArg resultOf hr)
    refine ⟨hresult, ?_⟩
    change command.failsWith atHand w.state (Errand.of play atHand command w).result = true
    rw [hresult]
    exact failed_of_misuse hmisuse
  mistyped := by
    intro atHand batch type keep b a hmeant hdata htype
    have hresult : (Errand.of play atHand (.takeData batch type keep) w).result = .ok .nothing :=
      conduct_of_ensures (P := fun r _ => r = .ok .nothing)
        ((ensures_takeData_mistyped hw hmeant hdata htype).mono fun r _ hr => congrArg resultOf hr)
    refine ⟨hresult, ?_⟩
    change (Command.takeData batch type keep).failsWith atHand w.state
      (Errand.of play atHand (.takeData batch type keep) w).result = true
    rw [hresult]
    rfl

theorem omits_of_mirrors (hplay : play.Mirrors play') (hw : w.Mirrors w') :
    w.Omits play play' w' where
  calls := fun commands => (calls_leftover hplay hw commands).1
  onward := fun commands => (calls_leftover hplay hw commands).2.toAbridged
  scripts := fun atHand script =>
    ((hplay atHand script script (.refl (.refl script))).ensures hw).mono fun _ _ hr =>
      hr.mono fun _ _ hr' => ⟨hr'.1, hr'.2.toAbridged⟩
  ending := fun commands =>
    ((agree_close hplay).ensures (calls_leftover hplay hw commands).2).mono fun _ _ hr =>
      hr.mono fun _ _ hr' => ⟨hr'.1, hr'.2.toAbridged⟩

/-- In whatever world user code finds itself, calls that fail leave everything as it was, or what
the release of a refused handle leaves.  When failed calls are omitted, be it those from outside or
those in scripts as well, all other calls come to the same, and so does the end of the session. -/
theorem Reachable.failures_harmless (h : Reachable w) (limit : Nat) :
    w.Unharmed (player limit) ∧
      ∀ w', w.Abridged w' → w.Omits (player limit) (player limit) w' ∧
        w.Omits (player limit) (frugalPlayer limit) w' := by
  refine ⟨unharmed_of_ordered h.ordered _, fun w' hw => ?_⟩
  have hmirrors : w.Mirrors w' := ⟨hw, h.ordered⟩
  exact ⟨omits_of_mirrors (player_matches limit) hmirrors,
    omits_of_mirrors (frugalPlayer_mirrors limit) hmirrors⟩

/-- A bus is told of an endpoint that a table refused, and its script looks for another one in
vain.  Without the failed calls two moments are missing, and a release stands for the refusal. -/
theorem failures_harmless_busy :
    ∃ w commands, Reachable w ∧ w.Unharmed (player 2) ∧
      w.Omits (player 2) (frugalPlayer 2) w ∧
      (calls (player 2) commands w).map Errand.failed = [true, true, false] ∧
      (leftover (player 2) commands w).map (·.result) = [.ok .done, .ok (.size 1)] ∧
      (onward (player 2) commands w).history.length = 9 ∧
      (onward (frugalPlayer 2)
        ((leftover (player 2) commands w).map (·.command)) w).history.length = 7 := by
  obtain ⟨w, hw⟩ : ∃ w, w = after 1
    [.addBus "hub" { BusPlan.bare Script with
        endpointDestroy := ⟨[⟨some [.find "devices" ⟨9, 0, .both⟩ none, .tableSize "devices"],
          .done⟩]⟩ },
      .addEndpoint "hub" default "pipe", .addEndpoint "hub" default "twin", .addTable "devices",
      .register "devices" "pipe"] := ⟨_, rfl⟩
  have hreachable : Reachable w := hw ▸ .idle (idle_after 1 _)
  obtain ⟨hunharmed, homits⟩ := hreachable.failures_harmless 2
  refine ⟨w, [.register "devices" "twin", .remove "devices" ⟨9, 0, .both⟩ none,
    .tableSize "devices"], hreachable, hunharmed, (homits w (.refl w)).2, ?_⟩
  rw [hw]
  decide

end Session
end UsbTransfer
