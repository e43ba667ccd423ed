import UsbTransfer.Proofs.Endings

/-!
# Traces of an end

What is recorded while a batch ends is determined, but for the answers of others and for what they
do meanwhile: each stage leaves its own trace, and the traces follow each other as the stages do.
What others do is nested inside of a stage and not about the batch, except while the bus is told
of the batch.  What user code does with the batch then is no step of its end.
-/

namespace UsbTransfer

open Run

namespace Occurrence

/-- The occurrence is a step of the end of a batch. -/
def StepOf (b : Key Batch) (o : Occurrence) : Prop :=
  o.endOf? = some b ∨ ∃ bus target scope, o = .resetRequested bus (some b) target scope

end Occurrence

namespace World

/-- Exactly this is recorded between two worlds, in this order. -/
def Trace (w : World) (all : List Occurrence) (w' : World) : Prop :=
  ∃ since : List Moment, w'.history = since ++ w.history ∧
    since.reverse.map (·.occurrence) = all

variable {w w' w'' : World} {all all' : List Occurrence} {o : Occurrence}

namespace Trace

theorem of_history_eq (h : w'.history = w.history) : w.Trace [] w' :=
  ⟨[], h, rfl⟩

/-- A change of the state leaves no trace. -/
theorem alter (w : World) (f : State → State) : w.Trace [] (w.alter f) :=
  of_history_eq rfl

theorem trans (h : w.Trace all w') (h' : w'.Trace all' w'') :
    w.Trace (all ++ all') w'' := by
  obtain ⟨since, hsince, rfl⟩ := h
  obtain ⟨since', hsince', rfl⟩ := h'
  refine ⟨since' ++ since, ?_, ?_⟩
  · rw [hsince', hsince, List.append_assoc]
  · rw [List.reverse_append, List.map_append]

theorem note (h : w.Trace all w') (o : Occurrence) : w.Trace (all ++ [o]) (w'.note o) :=
  h.trans ⟨[⟨o, w'.state⟩], rfl, rfl⟩

/-- What comes before and after an occurrence. -/
theorem around (h : w.Trace all w') (h' : (w'.note o).Trace all' w'') :
    w.Trace (all ++ o :: all') w'' := by
  have hboth := (h.note o).trans h'
  rwa [List.append_assoc] at hboth

/-- What is recorded is of the kind that all is of. -/
theorem exists_of_adds {P : Occurrence → Prop} (h : Adds P w w') :
    ∃ all, w.Trace all w' ∧ ∀ o ∈ all, P o := by
  obtain ⟨since, hsince, hP⟩ := h
  refine ⟨_, ⟨since, hsince, rfl⟩, fun o ho => ?_⟩
  obtain ⟨m, hm, rfl⟩ := List.mem_map.mp ho
  exact hP m (List.mem_reverse.mp hm)

theorem tally (h : w.Trace all w') (p : Occurrence → Bool) :
    w'.tally p = w.tally p + all.countP p := by
  obtain ⟨since, hsince, rfl⟩ := h
  rw [World.tally, hsince, List.countP_append, List.countP_map, List.countP_reverse]
  exact Nat.add_comm _ _

/-- Nothing that was recorded is forgotten. -/
theorem suffix (h : w.Trace all w') : w.history <:+ w'.history := by
  obtain ⟨since, hsince, -⟩ := h
  exact ⟨since, hsince.symm⟩

end Trace
end World

variable {hands : Hands} {w w' : World} {b : Key Batch}

/-- A released batch has nobody reset toggles for it. -/
theorem Change.unasked (h : Change hands w w')
    (hnone : (w.state.batches.get b).endpoint = none) :
    World.Adds (fun o => ∀ bus target scope, o ≠ .resetRequested bus (some b) target scope)
      w w' := by
  cases h with
  | consult | addBus | addTable | addQueue | rename | uninstall | leaveWaker | edit
  | detachHandler | detachData | changeData | keepHandle | takeHandle | lend | unlend
  | nameBatch | unnameBatch => exact ⟨[], rfl, by simp⟩
  | createEndpoint | acquire | release | setToggle | advanceToggle | install | giveUpTable
  | push | handOut | wake | build | giveUpEndpoint | handOver | attachHandler | attachData =>
      exact ⟨[_], rfl, by simp⟩
  | releaseLast => exact ⟨[_, _], rfl, by simp⟩
  | note v hfits =>
      refine ⟨[_], rfl, ?_⟩
      simp only [List.mem_singleton, forall_eq]
      rintro bus target scope rfl
      obtain ⟨e, he, -⟩ := hfits
      simp [hnone] at he

/-- What user code does with a released batch that was lent to it is no step of its end. -/
theorem Changes.adds_unstepped (h : Changes hands w w') (hb : ¬ hands.MayEnd b)
    (hloose : w.Loose b) (hnone : (w.state.batches.get b).endpoint = none) :
    World.Adds (fun o => ¬ o.StepOf b) w w' := by
  induction h with
  | refl => exact .refl _ _
  | tail hbefore hchange ih =>
      have hstill := (Changes.endpoint_eq hbefore hb hloose).trans hnone
      obtain ⟨since, hsince, hother⟩ := hchange.adds
      obtain ⟨since', hsince', hunasked⟩ := hchange.unasked hstill
      obtain rfl := List.append_cancel_right (hsince.symm.trans hsince')
      refine ih.trans ⟨since, hsince, fun m hm hstep => ?_⟩
      rcases hstep with hend | ⟨bus, target, scope, hasked⟩
      · exact hb ((hother m hm).2 b hend)
      · exact hunasked m hm bus target scope hasked

/-- The occurrences are about others. -/
def AsideOf (b : Key Batch) (nested : List Occurrence) : Prop :=
  ∀ o ∈ nested, o.batch? ≠ some b

theorem asideOf_nil (b : Key Batch) : AsideOf b [] :=
  fun _ h => absurd h List.not_mem_nil

theorem Moves.trace {give take : List Item} (h : Moves (hands.hold b) give take w w')
    (hloose : w.Loose b) :
    ∃ nested, w.Trace nested w' ∧ AsideOf b nested :=
  World.Trace.exists_of_adds (h.changes.adds_aside (by simp) hloose)

theorem Moves.trace_lent {give take : List Item} (h : Moves (hands.lend b) give take w w')
    (hloose : w.Loose b) (hnone : (w.state.batches.get b).endpoint = none) :
    ∃ meanwhile, w.Trace meanwhile w' ∧ ∀ o ∈ meanwhile, ¬ o.StepOf b :=
  World.Trace.exists_of_adds (h.changes.adds_unstepped (by simp) hloose hnone)

namespace Batch

variable {play : Player}

/-! ## Before the release -/

/-- The trace of a batch that has toggles reset, and of the failure of that. -/
def resetting (b : Key Batch) (bus : Key Bus) (t : Transfer) (nested : List Occurrence)
    (failure : Option UsbError) : List Occurrence :=
  if t.NeedsReset then
    .togglesResetting b :: .resetRequested bus (some b) t.target t.scope ::
      (nested ++ (failure.map (.resetFailed b)).toList)
  else
    []

/-- The trace of a batch whose completion goes to a handler, which may complain. -/
def delivering (b : Key Batch) (t : Transfer) (nested : List Occurrence)
    (complaint : Option UsbError) : Option Handler → List Occurrence
  | none => []
  | some handler =>
      .handlerInvoked b handler.serial handler.name? t.completion ::
        (nested ++ handler.destroyed b :: (complaint.map (.handlerFailed b)).toList)

theorem Resets.trace {r : Except Fault (Except UsbError Unit)} {e : Key Endpoint}
    (h : Resets hands b w r w') (hloose : w.Loose b)
    (he : (w.state.batches.get b).endpoint = some e) :
    ∃ nested, AsideOf b nested ∧
      w.Trace (resetting b (w.state.busOf e) (w.state.transferOf b) nested none) w' := by
  cases h with
  | spared hspared =>
      refine ⟨[], asideOf_nil b, ?_⟩
      rw [resetting, if_neg hspared]
      exact .of_history_eq rfl
  | released _ hnone => simp [hnone] at he
  | @asked e' _ _ _ hneeds he' _ hmoves =>
      obtain rfl := Option.some.inj (he.symm.trans he')
      obtain ⟨nested, htrace, haside⟩ := hmoves.trace (((hloose.note _).alter rfl rfl).note _)
      refine ⟨nested, haside, ?_⟩
      rw [resetting, if_pos hneeds]
      have hrequested := (World.Trace.alter (w.note (.togglesResetting b)) _).around htrace
      have hall := (World.Trace.of_history_eq (w := w) rfl).around hrequested
      simpa using hall

/-- A reset that fails is only asked for if it is needed. -/
theorem Resets.needs {error : UsbError} (h : Resets hands b w (.ok (.error error)) w') :
    (w.state.transferOf b).NeedsReset := by
  cases h with
  | asked hneeds => exact hneeds

/-- The failure of a reset comes last. -/
theorem resetting_failed {bus : Key Bus} {t : Transfer} (ht : t.NeedsReset)
    (nested : List Occurrence) (error : UsbError) :
    resetting b bus t nested none ++ [.resetFailed b error] =
      resetting b bus t nested (some error) := by
  simp [resetting, if_pos ht]

/-- The handler takes the buffer with the completion, and is gone after that. -/
theorem handed_trace {handler : Handler} {w₁ : World} (hloose : w.Loose b)
    (hmoves : Moves (hands.hold b) (Item.references handler.captured) []
      (handedOver b handler w) w₁) :
    (w₁.state.transferOf b).buffer = [] ∧
      ∃ nested, AsideOf b nested ∧
        w.Trace (delivering b (w.state.transferOf b) nested none (some handler))
          (w₁.note (handler.destroyed b)) := by
  obtain ⟨nested, htrace, haside⟩ := hmoves.trace (loose_handedOver handler hloose)
  refine ⟨?_, nested, haside, ?_⟩
  · rw [State.transferOf, (handed_rest hloose hmoves).1]
    rfl
  · exact (World.Trace.alter w _).around (htrace.note (handler.destroyed b))

theorem Delivers.trace {r : Except Fault Unit} (h : Delivers hands b w r w')
    (hloose : w.Loose b) :
    ∃ nested complaint, AsideOf b nested ∧
      w.Trace (delivering b (w.state.transferOf b) nested complaint
        (w.state.batches.get b).handler) w' ∧
      ((w.state.batches.get b).handler.isSome → (w'.state.transferOf b).buffer = []) := by
  cases h with
  | nothing hnone =>
      refine ⟨[], none, asideOf_nil b, ?_, ?_⟩
      · rw [hnone]
        exact .of_history_eq rfl
      · simp [hnone]
  | handed hhandler hmoves =>
      obtain ⟨hbuffer, nested, haside, htrace⟩ := handed_trace hloose hmoves
      refine ⟨nested, none, haside, ?_, fun _ => hbuffer⟩
      rw [hhandler]
      exact htrace
  | @failed handler w₁ error hhandler hmoves =>
      obtain ⟨hbuffer, nested, haside, htrace⟩ := handed_trace hloose hmoves
      refine ⟨nested, some error, haside, ?_, fun _ => hbuffer⟩
      rw [hhandler]
      have hall := htrace.note (.handlerFailed b error)
      simpa [delivering] using hall

/-- What a batch meets with before it is released: what others do when toggles are reset, how
that fails, which handler is invoked, what others do then, and what the handler complains of. -/
structure Encounter where
  inReset : List Occurrence
  failure : Option UsbError
  invoked : Option Handler
  inHandler : List Occurrence
  complaint : Option UsbError

/-- The trace of a batch that finishes, up to its release. -/
def completing (b : Key Batch) (bus : Key Bus) (t : Transfer) (met : Encounter) :
    List Occurrence :=
  .finishing b :: (resetting b bus t met.inReset met.failure ++
    delivering b t met.inHandler met.complaint met.invoked)

/-- The handler gets the completion unless the reset was interrupted, whatever its answer. -/
theorem Completes.trace {r : Except Fault Unit} {e : Key Endpoint}
    (h : Completes play hands b w r w') (hloose : w.Loose b)
    (he : (w.state.batches.get b).endpoint = some e) :
    ∃ met : Encounter, AsideOf b (met.inReset ++ met.inHandler) ∧
      w.Trace (completing b (w.state.busOf e) (w.state.transferOf b) met) w' ∧
      ((resetToggles play b).Faults (w.note (.finishing b)) → met.invoked = none) ∧
      (¬ (resetToggles play b).Faults (w.note (.finishing b)) →
        met.invoked = (w.state.batches.get b).handler) ∧
      (met.invoked.isSome → (w'.state.transferOf b).buffer = []) := by
  have hfinishing : w.Trace [] w := .of_history_eq rfl
  have haside : ∀ {nested nested' : List Occurrence}, AsideOf b nested → AsideOf b nested' →
      AsideOf b (nested ++ nested') :=
    fun h h' o ho => (List.mem_append.mp ho).elim (h o) (h' o)
  cases h with
  | interrupted hfaults hreset =>
      obtain ⟨nested, hnested, hresetting⟩ := hreset.trace (hloose.note _) he
      refine ⟨⟨nested, none, none, [], none⟩, haside hnested (asideOf_nil b), ?_, fun _ => rfl,
        fun h => absurd hfaults h, by simp⟩
      rw [completing, delivering, List.append_nil]
      exact hfinishing.around hresetting
  | @reset _ w₁ _ hreturns hreset hdeliver =>
      obtain ⟨hsame, hloose₁⟩ := hreset.aside (hloose.note _)
      obtain ⟨nested, hnested, hresetting⟩ := hreset.trace (hloose.note _) he
      obtain ⟨nested', complaint, hnested', hdelivering, hbuffer⟩ := hdeliver.trace hloose₁
      rw [State.transferOf, hsame] at hdelivering
      rw [hsame] at hbuffer
      exact ⟨⟨nested, none, _, nested', complaint⟩, haside hnested hnested',
        (hfinishing.around hresetting).trans hdelivering, fun h => absurd h hreturns,
        fun _ => rfl, hbuffer⟩
  | @unreset error _ w₁ _ hreturns hreset hdeliver =>
      obtain ⟨hsame, hloose₁⟩ := hreset.aside (hloose.note _)
      obtain ⟨nested, hnested, hresetting⟩ := hreset.trace (hloose.note _) he
      obtain ⟨nested', complaint, hnested', hdelivering, hbuffer⟩ :=
        hdeliver.trace (hloose₁.note _)
      rw [State.transferOf, World.note_state, hsame] at hdelivering
      rw [World.note_state, hsame] at hbuffer
      have hfailed := hresetting.note (.resetFailed b error)
      rw [resetting_failed hreset.needs] at hfailed
      exact ⟨⟨nested, some error, _, nested', complaint⟩, haside hnested hnested',
        (hfinishing.around hfailed).trans hdelivering, fun h => absurd h hreturns,
        fun _ => rfl, hbuffer⟩

namespace Ending

/-- The batch finishes when it ends in this way. -/
def Finishes : Ending → Prop
  | .finish | .abort => True
  | .destroy | .drop => False

instance : DecidablePred Finishes
  | .finish | .abort => isTrue trivial
  | .destroy | .drop => isFalse id

/-- The plain data with which a batch ends. -/
def final : Ending → Transfer → Transfer
  | .abort, t => t.cancel
  | .finish, t | .destroy, t | .drop, t => t

/-- The world in which a batch begins to end. -/
def start (b : Key Batch) (w : World) : Ending → World
  | .abort => w.alter (·.setTransfer b (w.state.transferOf b).cancel)
  | .finish | .destroy | .drop => w

/-- The bus gives up while the batch has it reset toggles. -/
def Interrupted (play : Player) (b : Key Batch) (w : World) (ending : Ending) : Prop :=
  ending.Finishes ∧ (resetToggles play b).Faults ((ending.start b w).note (.finishing b))

/-- The trace of a batch up to its release. -/
def opening (ending : Ending) (b : Key Batch) (bus : Key Bus) (t : Transfer) (met : Encounter) :
    List Occurrence :=
  if ending.Finishes then completing b bus (ending.final t) met else []

/-- The handler that is invoked when a batch ends, if any: the batch has to finish and its bus not
to give up before. -/
def Invokes (play : Player) (b : Key Batch) (w : World) (ending : Ending)
    (invoked : Option Handler) : Prop :=
  (ending.Interrupted play b w → invoked = none) ∧
    (¬ ending.Interrupted play b w →
      invoked = if ending.Finishes then (w.state.batches.get b).handler else none)

theorem Begins.trace {ending : Ending} {r : Except Fault Unit} {e : Key Endpoint}
    (h : ending.Begins play hands b w r w') (hloose : w.Loose b)
    (he : (w.state.batches.get b).endpoint = some e) :
    ∃ met : Encounter, AsideOf b (met.inReset ++ met.inHandler) ∧
      w.Trace (ending.opening b (w.state.busOf e) (w.state.transferOf b) met) w' ∧
      ending.Invokes play b w met.invoked ∧
      (met.invoked.isSome → (w'.state.transferOf b).buffer = []) := by
  cases ending with
  | finish =>
      obtain ⟨met, haside, htrace, hfaults, hreturns, hbuffer⟩ := Completes.trace h hloose he
      exact ⟨met, haside, htrace,
        ⟨fun h => hfaults h.2, fun h => hreturns fun h' => h ⟨trivial, h'⟩⟩, hbuffer⟩
  | abort =>
      have hcancelled := batch_cancelled hloose
      have htransfer :
          (w.alter (·.setTransfer b (w.state.transferOf b).cancel)).state.transferOf b =
            (w.state.transferOf b).cancel :=
        congrArg Batch.transfer hcancelled
      obtain ⟨met, haside, htrace, hfaults, hreturns, hbuffer⟩ :=
        Completes.trace h (loose_cancelled hloose) (e := e) (by rw [hcancelled]; exact he)
      rw [htransfer] at htrace
      rw [hcancelled] at hreturns
      exact ⟨met, haside, htrace,
        ⟨fun h => hfaults h.2, fun h => hreturns fun h' => h ⟨trivial, h'⟩⟩, hbuffer⟩
  | destroy | drop =>
      obtain ⟨-, rfl⟩ := h
      exact ⟨⟨[], none, none, [], none⟩, asideOf_nil b, .of_history_eq rfl,
        ⟨fun _ => rfl, fun _ => rfl⟩, by simp⟩

end Ending

/-! ## The release -/

/-- A batch gave up its reference on an endpoint, which went away at once. -/
theorem lost_trace {e : Key Endpoint} {w₁ w₂ : World} (hloose : w.Loose b)
    (hloses : (givenUp b e w).Loses e w₁) (hmoves : Moves (hands.hold b) [] [] w₁ w₂) :
    ∃ nested, AsideOf b nested ∧ w₁.Trace nested w₂ := by
  have hloose₁ : w₁.Loose b := by
    cases hloses with
    | shared | last => exact loose_givenUp (e := e) hloose
  obtain ⟨nested, htrace, haside⟩ := hmoves.trace hloose₁
  exact ⟨nested, haside, htrace⟩

/-- What user code does with a batch that it is told of. -/
theorem told_trace {e : Key Endpoint} {bus : Key Bus} {plan : BusPlan Script} {w₁ w₂ w₃ : World}
    (hloose : w.Loose b) (hloses : (givenUp b e w).Loses e w₁)
    (hmoves : Moves (hands.hold b) [] [] w₁ w₂)
    (htold : Moves (hands.lend b) [] []
      ((w₂.alter (·.setPlan bus plan)).note (.batchFarewell bus b)) w₃) :
    ∃ meanwhile, (∀ o ∈ meanwhile, ¬ o.StepOf b) ∧
      ((w₂.alter (·.setPlan bus plan)).note (.batchFarewell bus b)).Trace meanwhile w₃ := by
  obtain ⟨hsame, hloose₂⟩ := lost_rest hloose hloses hmoves
  obtain ⟨meanwhile, htrace, hsteps⟩ :=
    htold.trace_lent ((hloose₂.alter rfl rfl).note _) (congrArg Batch.endpoint hsame)
  exact ⟨meanwhile, hsteps, htrace⟩

/-- The reference is given up once and goes away at once.  The bus is told of the batch, at a
moment at which the batch has lost its endpoint and nothing else, unless the bus of the endpoint
gave up when it was told that the reference was the last one. -/
theorem Releases.trace {r : Except Fault Unit} {e : Key Endpoint}
    (h : Releases play hands b w r w') (hloose : w.Loose b)
    (he : (w.state.batches.get b).endpoint = some e) :
    ∃ w₁ nested told, (givenUp b e w).Loses e w₁ ∧ AsideOf b nested ∧
      (givenUp b e w).Trace (nested ++ told) w' ∧ w₁.history <:+ w'.history ∧
      ((Endpoint.release play e).Faults (givenUp b e w) →
        told = [] ∧ (w.state.endpoints.get e).references = 1) ∧
      (¬ (Endpoint.release play e).Faults (givenUp b e w) →
        ∃ (meanwhile : List Occurrence) (reply : Option FarewellReply) (s : State)
          (earlier : List Moment), (∀ o ∈ meanwhile, ¬ o.StepOf b) ∧
          told = .batchFarewell (w.state.busOf e) b ::
            (meanwhile ++ (reply.map (Occurrence.batchReleased b)).toList) ∧
          s.batches.get b = { w.state.batches.get b with endpoint := none } ∧
          ⟨.batchFarewell (w.state.busOf e) b, s⟩ :: earlier <:+ w'.history ∧
          w₁.history <:+ earlier) := by
  have hlost : ∀ {w₁ w₂ : World}, (givenUp b e w).Loses e w₁ →
      Moves (hands.hold b) [] [] w₁ w₂ →
        ∃ nested, AsideOf b nested ∧ (givenUp b e w).Trace nested w₂ ∧
          w₁.history <:+ w₂.history := by
    intro w₁ w₂ hloses hmoves
    obtain ⟨nested, haside, htrace⟩ := lost_trace hloose hloses hmoves
    have hlater := htrace.suffix
    cases hloses with
    | shared =>
        refine ⟨_, ?_, (World.Trace.alter (givenUp b e w) _).around htrace, hlater⟩
        simpa [AsideOf, Occurrence.batch?] using haside
    | last =>
        have htold := (World.Trace.alter (((givenUp b e w).alter (·.loseReference e)).note
          (.referenceReleased e)) _).around htrace
        refine ⟨_, ?_, (World.Trace.alter (givenUp b e w) _).around htold, hlater⟩
        simpa [AsideOf, Occurrence.batch?] using haside
  cases h with
  | before hnone => simp [hnone] at he
  | @interrupted e' w₁ _ _ he' hfaults hlast hloses hmoves =>
      obtain rfl := Option.some.inj (he.symm.trans he')
      obtain ⟨nested, haside, htrace, hlater⟩ := hlost hloses hmoves
      refine ⟨w₁, nested, [], hloses, haside, ?_, hlater, fun _ => ⟨rfl, hlast⟩,
        fun h => absurd hfaults h⟩
      rwa [List.append_nil]
  | @refused e' plan w₁ w₂ _ _ he' hreturns hloses hmoves _ _ htold =>
      obtain rfl := Option.some.inj (he.symm.trans he')
      obtain ⟨nested, haside, htrace, hlater⟩ := hlost hloses hmoves
      obtain ⟨meanwhile, hsteps, hmeanwhile⟩ := told_trace hloose hloses hmoves htold
      have hconsulted := htrace.trans (World.Trace.alter w₂ (·.setPlan (w.state.busOf e) plan))
      rw [List.append_nil] at hconsulted
      refine ⟨w₁, nested, _, hloses, haside, hconsulted.around hmeanwhile,
        hlater.trans ((List.suffix_cons _ _).trans hmeanwhile.suffix), fun h => absurd h hreturns,
        fun _ => ⟨meanwhile, none, w₂.state.setPlan (w.state.busOf e) plan, w₂.history, hsteps, ?_,
          (lost_rest hloose hloses hmoves).1, hmeanwhile.suffix, hlater⟩⟩
      simp
  | @done e' plan reply w₁ w₂ _ he' hreturns hloses hmoves _ _ htold =>
      obtain rfl := Option.some.inj (he.symm.trans he')
      obtain ⟨nested, haside, htrace, hlater⟩ := hlost hloses hmoves
      obtain ⟨meanwhile, hsteps, hmeanwhile⟩ := told_trace hloose hloses hmoves htold
      have hconsulted := htrace.trans (World.Trace.alter w₂ (·.setPlan (w.state.busOf e) plan))
      rw [List.append_nil] at hconsulted
      have hreleased := hmeanwhile.note (.batchReleased b reply)
      exact ⟨w₁, nested, _, hloses, haside, hconsulted.around hreleased,
        hlater.trans ((List.suffix_cons _ _).trans hreleased.suffix), fun h => absurd h hreturns,
        fun _ => ⟨meanwhile, some reply, w₂.state.setPlan (w.state.busOf e) plan, w₂.history,
          hsteps, rfl, (lost_rest hloose hloses hmoves).1, hreleased.suffix, hlater⟩⟩

/-! ## What is left -/

/-- The trace of something that goes away, if there is anything. -/
def shedding (nested : List Occurrence) : Option Occurrence → List Occurrence
  | none => []
  | some o => nested ++ [o]

theorem Sheds.trace {x? : Option Belonging} {r : Except Fault Unit}
    (h : Sheds hands b w x? r w') (hloose : w.Loose b) :
    ∃ nested, AsideOf b nested ∧ w.Trace (shedding nested (x?.map (·.destroyed b))) w' := by
  cases h with
  | nothing => exact ⟨[], asideOf_nil b, .of_history_eq rfl⟩
  | @shed x _ _ _ hmoves =>
      obtain ⟨nested, htrace, haside⟩ := hmoves.trace (x.loose_detach hloose)
      exact ⟨nested, haside, ((World.Trace.alter w _).trans htrace).note (x.destroyed b)⟩

end Batch

end UsbTransfer
