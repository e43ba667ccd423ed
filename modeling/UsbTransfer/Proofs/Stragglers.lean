import UsbTransfer.Proofs.Alternation

/-!
# Stragglers

A batch whose transfer failed asks for a reset at the target of its endpoint, and the table that a
bus leaves this to resets what is installed at that target.  That is the endpoint of the batch as
long as this one is installed.  Once it was uninstalled another endpoint may be installed at its
target, and then a batch that is left over from the first one resets the toggle of the second.
-/

namespace UsbTransfer

open Run

/-- On its way from `w` to `w'`, a bus had a table reset the toggles of these endpoints, after which
the world was `w₁`; there was no other event before that. -/
structure World.HasReset (w : World) (bus : Key Bus) (t : Key Table) (es : List (Key Endpoint))
    (w₁ w' : World) : Prop where
  since : w.history <:+ w₁.history
  toggled : w.Toggled (· = .reset t es) w₁ [.reset t es]
  recorded : (w₁.note (.tableResetByBus bus es.length)).history <:+ w'.history

namespace World.HasReset

variable {w w₀ w₁ w' w'' : World} {bus : Key Bus} {t : Key Table} {es : List (Key Endpoint)}

theorem later (h : w.HasReset bus t es w₁ w') (hlater : w'.history <:+ w''.history) :
    w.HasReset bus t es w₁ w'' :=
  ⟨h.since, h.toggled, h.recorded.trans hlater⟩

theorem after (h : w.HasReset bus t es w₁ w') (hbefore : w₀.history <:+ w.history)
    (htoggled : w₀.Toggled (· = .reset t es) w []) :
    w₀.HasReset bus t es w₁ w' :=
  ⟨hbefore.trans h.since, htoggled.trans h.toggled, h.recorded⟩

end World.HasReset

section Later

variable {α β : Type} {P : ToggleEvent → Prop} {m : Run α} {w : World}

/-- The history is only added to. -/
theorem Run.Follows.ensures_suffix (hm : MakesOnly P m) (w : World) :
    Ensures m w fun _ w' => w.history <:+ w'.history :=
  Ensures.mono (hm w) fun _ _ hr => suffix_of_toggleSteps hr

/-- What was recorded by a first part is still on record after a second one. -/
theorem ensures_bind_of_recorded {f : α → Run β} {Q : World → Prop}
    (hQ : ∀ {w w' : World}, Q w → w.history <:+ w'.history → Q w')
    (hm : Ensures m w fun _ w' => Q w') (hf : ∀ a, MakesOnly P (f a)) :
    Ensures (m >>= f) w fun _ w' => Q w' := by
  rw [ensures_bind]
  apply Ensures.mono hm
  intro r w' hr
  cases r with
  | error fault => exact hr
  | ok a => exact Ensures.mono ((hf a).ensures_suffix w') fun _ _ hlater => hQ hr hlater

theorem ensures_ensuring_of_recorded {after : Run Unit} {Q : World → Prop}
    (hQ : ∀ {w w' : World}, Q w → w.history <:+ w'.history → Q w')
    (hm : Ensures m w fun _ w' => Q w') (hafter : MakesOnly P after) :
    Ensures (ensuring m after) w fun _ w' => Q w' := by
  rw [ensures_ensuring]
  apply Ensures.mono hm
  intro r w' hr
  exact Ensures.mono (hafter.ensures_suffix w') fun _ _ hlater => hQ hr hlater

end Later

variable {w : World} {play : Player} {t : Key Table}

namespace Bus

/-- Asked to reset toggles, the bus has a table do it before all else. -/
def AsksTable (s : State) (bus : Key Bus) (t : Key Table) : Prop :=
  ∃ hook, (s.buses.get bus).plan.toggleReset.current? = some hook ∧
    hook.reply.table.bind s.directory.tables.find? = some t

theorem ensures_resetToggles_of_asks (hplay : play.MakesOnly AnyToggleEvent) {bus : Key Bus}
    (hasks : AsksTable w.state bus t) (hfree : (w.state.tables.get t).lock = .free)
    (asker : Option (Key Batch)) (target : Target) (scope : ResetScope)
    {reached : List (Key Endpoint)}
    (hreached : (w.state.tables.get t).reached w.state.targetOf target scope = reached) :
    Ensures (resetToggles play bus asker target scope) w fun _ w' =>
      ∃ w₁, w.HasReset bus t reached w₁ w' := by
  obtain ⟨hook, hcurrent, htable⟩ := hasks
  unfold resetToggles
  simp only [ensures_bind, ensures_nextHook, ensures_record, ensures_getState, then_ok, hcurrent]
  generalize { (w.state.buses.get bus).plan with
    toggleReset := (w.state.buses.get bus).plan.toggleReset.advance } = plan
  obtain ⟨asked, hasked⟩ : ∃ asked, asked = (w.alter (·.setPlan bus plan)).note
    (.resetRequested bus asker target scope) := ⟨_, rfl⟩
  have hsince : w.history <:+ asked.history := hasked ▸ List.suffix_cons _ _
  have htoggled : w.Toggled (· = .reset t reached) asked [] :=
    hasked ▸ (World.toggled_alter (.of_endpoints rfl)).trans (World.toggled_note rfl)
  have hfree' : (asked.state.tables.get t).lock = .free := hasked ▸ hfree
  have hreached' : (asked.state.tables.get t).reached asked.state.targetOf target scope = reached :=
    hasked ▸ hreached
  have hfound : hook.reply.table.bind
      (w.state.setPlan bus plan).directory.tables.find? = some t := htable
  simp only [World.note_state, World.alter_state, hfound]
  rw [← hasked, ensures_bind]
  apply Ensures.mono ((Table.toggled_resetToggles hfree' target scope hreached').and
    ((hplay.walk.resetTable (fun _ => trivial) target scope).ensures_suffix _))
  rintro r w₁ ⟨⟨rfl, hreset⟩, hlater⟩
  rw [then_ok, ensures_bind, ensures_record, then_ok]
  -- what the bus does after the reset only adds to what is on record
  refine Ensures.mono (Run.Follows.ensures_suffix (P := AnyToggleEvent)
    (Follows.bind (hplay.walk.run fun _ _ _ _ => trivial) fun _ => ?_) _) ?_
  · cases hook.reply.reply <;> exact follows_pure _
  · exact fun _ _ hrecorded => ⟨w₁, hsince.trans hlater, htoggled.trans hreset, hrecorded⟩

end Bus

namespace Batch

variable {b : Key Batch} {e : Key Endpoint} {reached : List (Key Endpoint)}

theorem ensures_resetToggles_of_asks (hplay : play.MakesOnly AnyToggleEvent)
    (hfree : (w.state.tables.get t).lock = .free)
    (he : (w.state.batches.get b).endpoint = some e)
    (hasks : Bus.AsksTable w.state (w.state.busOf e) t)
    (hneeds : (w.state.transferOf b).NeedsReset)
    (hreached : (w.state.tables.get t).reached w.state.targetOf (w.state.transferOf b).target
      (w.state.transferOf b).scope = reached) :
    Ensures (resetToggles play b) w fun _ w' =>
      ∃ w₁, w.HasReset (w.state.busOf e) t reached w₁ w' := by
  unfold resetToggles
  rw [ensures_bind, ensures_getState, then_ok]
  dsimp only
  rw [if_pos hneeds, ensures_bind, ensures_record, then_ok]
  simp only [he]
  refine ensures_bind_of_recorded (P := AnyToggleEvent) (fun ⟨w₁, h⟩ hlater => ⟨w₁, h.later hlater⟩)
    ?_ fun answer? => by cases answer? <;> exact follows_pure _
  apply Ensures.mono (Bus.ensures_resetToggles_of_asks (w := w.note (.togglesResetting b)) hplay
    hasks hfree (some b) _ _ hreached)
  rintro r w' ⟨w₁, hreset⟩
  exact ⟨w₁, hreset.after (List.suffix_cons _ _) (World.toggled_note rfl)⟩

theorem ensures_finish_of_asks (hplay : play.MakesOnly AnyToggleEvent)
    (hfree : (w.state.tables.get t).lock = .free)
    (he : (w.state.batches.get b).endpoint = some e)
    (hasks : Bus.AsksTable w.state (w.state.busOf e) t)
    (hneeds : (w.state.transferOf b).NeedsReset)
    (hreached : (w.state.tables.get t).reached w.state.targetOf (w.state.transferOf b).target
      (w.state.transferOf b).scope = reached) :
    Ensures (finish play b) w fun _ w' =>
      ∃ w₁, w.HasReset (w.state.busOf e) t reached w₁ w' := by
  have hrecorded : ∀ {w' w'' : World}, (∃ w₁, w.HasReset (w.state.busOf e) t reached w₁ w') →
      w'.history <:+ w''.history → ∃ w₁, w.HasReset (w.state.busOf e) t reached w₁ w'' :=
    fun ⟨w₁, h⟩ hlater => ⟨w₁, h.later hlater⟩
  have hwalk := hplay.walk
  unfold finish endAfter
  refine ensures_ensuring_of_recorded hrecorded (ensures_ensuring_of_recorded hrecorded ?_
    (hwalk.releaseBatch b)) ((hwalk.destroyBelongings ToggleStep.of_dataStep).ensuring
      (hwalk.recordEnd b))
  rw [ensures_bind, ensures_record, then_ok]
  refine ensures_bind_of_recorded hrecorded ?_ fun outcome => hwalk.afterReset b outcome
  apply Ensures.mono (ensures_resetToggles_of_asks (w := w.note (.finishing b)) hplay hfree he hasks
    hneeds hreached)
  rintro r w' ⟨w₁, hreset⟩
  exact ⟨w₁, hreset.after (List.suffix_cons _ _) (World.toggled_note rfl)⟩

namespace Ending

/-- A batch that is aborted finishes as one that failed. -/
theorem ensures_run_of_finishes {ending : Ending} (hfinishes : ending.Finishes)
    (Q : Except Fault Unit → World → Prop) :
    Ensures (ending.run play b) w Q ↔ Ensures (Batch.finish play b) (ending.start b w) Q := by
  cases ending with
  | destroy | drop => exact hfinishes.elim
  | finish => rfl
  | abort =>
      simp only [run, Batch.abort, ensures_bind, ensures_modifyTransfer, then_ok]
      rfl

/-- A batch begins to end with its final data. -/
theorem start_eq (ending : Ending) (b : Key Batch) (w : World) :
    ending.start b w = w.alter (·.setTransfer b (ending.final (w.state.transferOf b))) := by
  have hsame : w.alter (·.setTransfer b (w.state.transferOf b)) = w := by
    have hbatches := w.state.batches.modify_eq_self b
      (fun batch => { batch with transfer := w.state.transferOf b }) rfl
    simp only [World.alter, State.setTransfer, hbatches]
  cases ending with
  | abort => rfl
  | finish | destroy | drop => exact hsame.symm

theorem ensures_run_of_asks {ending : Ending} (hplay : play.MakesOnly AnyToggleEvent)
    (hfree : (w.state.tables.get t).lock = .free)
    (he : (w.state.batches.get b).endpoint = some e)
    (hasks : Bus.AsksTable w.state (w.state.busOf e) t)
    (hfinishes : ending.Finishes) (hneeds : (ending.final (w.state.transferOf b)).NeedsReset)
    (hreached : (w.state.tables.get t).reached w.state.targetOf
      (ending.final (w.state.transferOf b)).target (ending.final (w.state.transferOf b)).scope =
        reached) :
    Ensures (ending.run play b) w fun _ w' =>
      ∃ w₁, w.HasReset (w.state.busOf e) t reached w₁ w' := by
  obtain ⟨final, hfinal⟩ : ∃ final, final = ending.final (w.state.transferOf b) := ⟨_, rfl⟩
  obtain ⟨begun, hbegun⟩ : ∃ begun, begun = w.alter (·.setTransfer b final) := ⟨_, rfl⟩
  have hbatch : begun.state.batches.get b = { w.state.batches.get b with transfer := final } :=
    hbegun ▸ w.state.batches.get_modify_self b _ (State.index_lt_of_endpoint he)
  have htransfer : begun.state.transferOf b = final := congrArg Batch.transfer hbatch
  have hbus : begun.state.busOf e = w.state.busOf e := hbegun ▸ rfl
  have hfree' : (begun.state.tables.get t).lock = .free := hbegun ▸ hfree
  have hasks' : Bus.AsksTable begun.state (begun.state.busOf e) t := hbegun ▸ hasks
  have hreached' : (begun.state.tables.get t).reached begun.state.targetOf
      (begun.state.transferOf b).target (begun.state.transferOf b).scope = reached := by
    rw [htransfer, hfinal]
    exact hbegun ▸ hreached
  have htoggled : w.Toggled (· = .reset t reached) begun [] :=
    hbegun ▸ World.toggled_alter (.of_endpoints rfl)
  have hhistory : w.history <:+ begun.history := hbegun ▸ List.suffix_refl _
  rw [ensures_run_of_finishes hfinishes, start_eq, ← hfinal, ← hbegun]
  apply Ensures.mono (ensures_finish_of_asks hplay hfree' (by rw [hbatch]; exact he) hasks'
    (by rw [htransfer, hfinal]; exact hneeds) hreached')
  rintro r w' ⟨w₁, hreset⟩
  exact ⟨w₁, hbus ▸ hreset.after hhistory htoggled⟩

end Ending

end Batch

namespace Session

variable {b : Key Batch} {e : Key Endpoint}

/-- What a reset on behalf of a batch on the endpoint does to toggles. -/
structure ResetAtTarget (t : Key Table) (e : Key Endpoint) (s s' : State) : Prop where
  /-- It is addressed to the target of the endpoint, not to the endpoint. -/
  toggles : ∀ x, x.index < s.endpoints.size →
    s'.toggleOf x =
      if x ∈ (s.tables.get t).slots.values ∧ (s.targetOf x).Matches (s.targetOf e) then false
      else s.toggleOf x
  /-- No other endpoint's toggle changes just if no other one that is installed there has DATA1. -/
  others : (∀ x, x.index < s.endpoints.size → x ≠ e → s'.toggleOf x = s.toggleOf x) ↔
    ∀ x ∈ (s.tables.get t).slots.values, (s.targetOf x).Matches (s.targetOf e) → x ≠ e →
      s.toggleOf x = false
  /-- So it is as long as the endpoint of the batch is installed itself. -/
  installed : e ∈ (s.tables.get t).slots.values →
    ∀ x, x.index < s.endpoints.size → x ≠ e → s'.toggleOf x = s.toggleOf x

theorem resetAtTarget_of_toggles {s s' : State}
    (hexist : ∀ x ∈ (s.tables.get t).slots.values, x.index < s.endpoints.size)
    (halone : e ∈ (s.tables.get t).slots.values →
      (s.tables.get t).reached s.targetOf (s.targetOf e) .endpoint = [e])
    (htoggles : ∀ x, x.index < s.endpoints.size → s'.toggleOf x =
      if x ∈ (s.tables.get t).reached s.targetOf (s.targetOf e) .endpoint then false
      else s.toggleOf x) :
    ResetAtTarget t e s s' := by
  have hmem : ∀ x, x ∈ (s.tables.get t).reached s.targetOf (s.targetOf e) .endpoint ↔
      x ∈ (s.tables.get t).slots.values ∧ (s.targetOf x).Matches (s.targetOf e) := by
    intro x
    rw [Table.reached, List.mem_filter, decide_eq_true_iff]
    rfl
  refine ⟨fun x hx => ?_, ⟨fun hsame x hx hmatches hne => ?_, fun hdata x hx hne => ?_⟩,
    fun hinstalled x hx hne => ?_⟩
  · rw [htoggles x hx]
    simp only [hmem]
  · rw [← hsame x (hexist x hx) hne, htoggles x (hexist x hx), if_pos ((hmem x).mpr ⟨hx, hmatches⟩)]
  · rw [htoggles x hx]
    split
    · next hreached =>
        obtain ⟨hinstalled, hmatches⟩ := (hmem x).mp hreached
        exact (hdata x hinstalled hmatches hne).symm
    · rfl
  · rw [htoggles x hx, halone hinstalled, if_neg]
    simpa using hne

/-- When a batch finishes or is aborted whose transfer failed in the scope of one endpoint, and its
bus leaves the reset to a table, this resets whatever the table holds at the target of the batch's
endpoint by then.  It leaves all other endpoints alone if the batch's endpoint is still installed;
otherwise another one may have taken its place, and is reset. -/
theorem Reachable.resets_at_target (h : Reachable w) (name : String)
    (hfind : w.state.directory.batches.find? name = some b)
    (he : (w.state.batches.get b).endpoint = some e)
    (hasks : Bus.AsksTable w.state (w.state.busOf e) t) (limit : Nat) (ending : Batch.Ending)
    (hfinishes : ending.Finishes)
    (hfailed : (ending.final (w.state.transferOf b)).status ≠ .ok)
    (hscope : (w.state.transferOf b).scope = .endpoint) :
    Ensures (endBatch name fun b => ending.run (player limit) b) w fun _ w' =>
      ∃ es w₁, w.HasReset (w.state.busOf e) t es w₁ w' ∧
        ResetAtTarget t e w.state w₁.state := by
  obtain ⟨-, hown⟩ := h.own_unnamed hfind
  have htarget : (w.state.transferOf b).target = w.state.targetOf e :=
    congrArg Descriptor.target (h.ready.sound.described b e he)
  have htarget' : (ending.final (w.state.transferOf b)).target = w.state.targetOf e := by
    cases ending <;> exact htarget
  have hscope' : (ending.final (w.state.transferOf b)).scope = .endpoint := by
    cases ending <;> exact hscope
  have hneeds : (ending.final (w.state.transferOf b)).NeedsReset := by
    refine ⟨hfailed, ?_⟩
    rw [hscope']
    exact nofun
  have hunnamed : ∀ P, w.Toggled P (w.unname name) [] := fun P =>
    World.toggled_alter (.of_endpoints rfl)
  rw [ensures_endBatch hfind]
  apply Ensures.mono (Batch.Ending.ensures_run_of_asks (w := w.unname name)
    (makesOnly_player limit) (h.ready.sound.tablesFree t) he hasks hfinishes hneeds rfl)
  rintro r w' ⟨w₁, hreset⟩
  have hreset' : w.HasReset _ t _ w₁ w' := hreset.after (List.suffix_refl _) (hunnamed _)
  refine ⟨_, w₁, hreset', resetAtTarget_of_toggles ?_ ?_ fun x hx => ?_⟩
  · intro x hx
    obtain ⟨slot, hslot⟩ := Slots.mem_values.mp hx
    exact h.ready.sound.index_lt_of_installed hslot
  · exact (h.changes.tabled.exclusive t).reached_endpoint
  · rw [← htarget', ← hscope']
    exact hreset'.toggled.toggle_eq hx

/-- A batch is aborted whose endpoint is installed next to the other half of its number. -/
theorem resets_at_target_half :
    ∃ w es w₁ w', Reachable w ∧ w.HasReset ⟨0⟩ ⟨0⟩ es w₁ w' ∧
      w.state.toggleOf ⟨0⟩ = true ∧ w.state.toggleOf ⟨1⟩ = true ∧
      w₁.state.toggleOf ⟨0⟩ = false ∧ w₁.state.toggleOf ⟨1⟩ = true := by
  obtain ⟨w, hw⟩ : ∃ w, w = after 1
      [.addBus "hub" { BusPlan.bare Script with
          toggleReset := ⟨[⟨none, ⟨some "table", .done⟩⟩]⟩ },
        .addTable "table",
        .addEndpoint "hub" ⟨⟨1, 2, .inbound⟩, .bulk, 64⟩ "in", .newBatch "in" "transfer",
        .setToggle "in" true, .register "table" "in",
        .addEndpoint "hub" ⟨⟨1, 2, .outbound⟩, .bulk, 64⟩ "out",
        .setToggle "out" true, .register "table" "out"] := ⟨_, rfl⟩
  have hreachable : Reachable w := hw ▸ .idle (idle_after 1 _)
  have hasks : Bus.AsksTable w.state (w.state.busOf ⟨0⟩) ⟨0⟩ := by
    rw [hw]
    exact ⟨_, rfl, by decide⟩
  have hresets := hreachable.resets_at_target "transfer" (b := ⟨0⟩) (e := ⟨0⟩)
    (by rw [hw]; decide) (by rw [hw]; decide) hasks 1 .abort trivial nofun (by rw [hw]; decide)
  obtain ⟨es, w₁, hreset, htarget⟩ := hresets.worldAfter
  have hbus : w.state.busOf ⟨0⟩ = ⟨0⟩ := by
    rw [hw]
    decide
  have hset : w.state.toggleOf ⟨0⟩ = true ∧ w.state.toggleOf ⟨1⟩ = true := by
    rw [hw]
    decide
  refine ⟨w, es, w₁, _, hreachable, hbus ▸ hreset, hset.1, hset.2, ?_, ?_⟩
  · rw [htarget.toggles ⟨0⟩ (by rw [hw]; decide), if_pos (by rw [hw]; decide)]
  · rw [htarget.installed (by rw [hw]; decide) ⟨1⟩ (by rw [hw]; decide) (by decide), hset.2]

/-- A batch stalls whose endpoint was replaced by another one at the same target, and the toggle of
the new endpoint is reset. -/
theorem straggler_resets_successor :
    ∃ w, Reachable w ∧ w.state.directory.batches.find? "transfer" = some ⟨0⟩ ∧
      (w.state.batches.get ⟨0⟩).endpoint = some ⟨0⟩ ∧
      (w.state.transferOf ⟨0⟩).status = .failed .stall ∧
      (w.state.transferOf ⟨0⟩).scope = .endpoint ∧
      Bus.AsksTable w.state (w.state.busOf ⟨0⟩) ⟨0⟩ ∧ w.state.toggleOf ⟨1⟩ = true ∧
      ((endBatch "transfer" (Batch.finish (player 1))).worldAfter w).state.toggleOf ⟨1⟩ =
        false := by
  refine ⟨after 1
    [.addBus "hub" { BusPlan.bare Script with
        toggleReset := ⟨[⟨none, ⟨some "table", .done⟩⟩]⟩ },
      .addTable "table",
      .addEndpoint "hub" ⟨⟨1, 2, .inbound⟩, .bulk, 64⟩ "old", .addReference "old" "kept",
      .register "table" "kept", .newBatch "old" "transfer", .remove "table" ⟨1, 2, .inbound⟩ none,
      .addEndpoint "hub" ⟨⟨1, 2, .inbound⟩, .bulk, 64⟩ "fresh", .addReference "fresh" "kept",
      .register "table" "kept", .setToggle "fresh" true,
      .complete "transfer" (.failed .stall) 0], .idle (idle_after 1 _), by decide, by decide,
    by decide, by decide, ⟨_, rfl, by decide⟩, by decide, by decide⟩

end Session
end UsbTransfer
