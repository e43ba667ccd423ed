import UsbTransfer.Proofs.Fates
import UsbTransfer.Proofs.Homes

/-!
# What is asked of buses

A bus is asked for a batch, for a reset of toggles, and is told of what goes away, anew each time.
What it does is nowhere kept: each call goes by the behaviour that the bus has then, and uses it
up.  Whatever comes of the request for a batch, no reference and no batch is left behind that
nobody has, and a batch that was created has its home where the bus chose to build it.
-/

namespace UsbTransfer

open Run

variable {w w' : World} {b : Key Batch} {e : Key Endpoint}

/-! ## Plans of buses -/

/-- The plan of a bus after the calls among these moments, the latest first. -/
def BusPlan.since (bus : Key Bus) (plan : BusPlan Script) : List Moment → BusPlan Script
  | [] => plan
  | m :: earlier =>
      if m.occurrence.asked? = some bus then (since bus plan earlier).after m.occurrence
      else since bus plan earlier

theorem BusPlan.since_append (bus : Key Bus) (plan : BusPlan Script)
    (later earlier : List Moment) :
    since bus plan (later ++ earlier) = since bus (since bus plan earlier) later := by
  induction later with
  | nil => rfl
  | cons m later ih =>
      rw [List.cons_append, since, since, ih]

theorem Occurrence.Mere.asked? {o : Occurrence} (h : o.Mere) : o.asked? = none := by
  cases o <;> first | rfl | exact h.elim

/-- A step uses up one behaviour of a bus if it calls that bus, and none otherwise. -/
theorem LifecycleStep.plan (h : LifecycleStep w w') {bus : Key Bus}
    (hbus : bus.index < w.state.buses.size) :
    bus.index < w'.state.buses.size ∧ ∃ since, w'.history = since ++ w.history ∧
      (w'.state.buses.get bus).plan = BusPlan.since bus (w.state.buses.get bus).plan since := by
  have hone : ∀ {m : Moment}, m.occurrence.asked? ≠ some bus → ∀ plan,
      BusPlan.since bus plan [m] = plan :=
    fun hm _ => if_neg hm
  cases h with
  | alter hcalm => exact ⟨Nat.lt_of_lt_of_le hbus hcalm.buses, [], rfl, hcalm.plan bus hbus⟩
  | name | shed => exact ⟨hbus, [], rfl, rfl⟩
  | note hmere => exact ⟨hbus, [_], rfl, (hone (by simp [hmere.asked?]) _).symm⟩
  | build | giveUp | attach | invoke | perish | finish | install | giveUpTable =>
      exact ⟨hbus, [_], rfl, (hone (by simp [Occurrence.asked?]) _).symm⟩
  | uninstall target hslot =>
      obtain ⟨_, -, rfl⟩ := State.uninstall?_eq_some hslot
      exact ⟨hbus, [_], rfl, (hone (by simp [Occurrence.asked?]) _).symm⟩
  | uninstallDevice count hvalues hothers hbatches hbuses =>
      refine ⟨hbuses ▸ hbus, [_], rfl, ?_⟩
      rw [World.alter_state, hbuses]
      exact (hone (by simp [Occurrence.asked?]) _).symm
  | @call bus' o hasked =>
      refine ⟨by simpa [World.called, State.setPlan] using hbus, [_], rfl, ?_⟩
      simp only [World.called, World.note_state, World.alter_state, State.setPlan, BusPlan.since]
      by_cases heq : bus = bus'
      · subst heq
        rw [Arena.get_modify_self _ _ _ hbus, if_pos hasked]
      · rw [Arena.get_modify_of_ne _ _ heq,
          if_neg fun h => heq (Option.some.inj (h.symm.trans hasked))]

/-- What became of the plan of a bus is told by the calls on record. -/
theorem LifecycleSteps.plan (h : LifecycleSteps w w') {bus : Key Bus}
    (hbus : bus.index < w.state.buses.size) :
    bus.index < w'.state.buses.size ∧ ∃ since, w'.history = since ++ w.history ∧
      (w'.state.buses.get bus).plan = BusPlan.since bus (w.state.buses.get bus).plan since := by
  induction h with
  | refl => exact ⟨hbus, [], rfl, rfl⟩
  | tail _ hstep ih =>
      obtain ⟨hbus', earlier, hearlier, hplan⟩ := ih
      obtain ⟨hbus'', later, hlater, hplan'⟩ := hstep.plan hbus'
      refine ⟨hbus'', later ++ earlier, ?_, ?_⟩
      · rw [hlater, hearlier, List.append_assoc]
      · rw [hplan', hplan, BusPlan.since_append]

/-! ## Resets of toggles -/

/-- The answer of a bus to the request for a reset of toggles, as the behaviour for this call has
it. -/
def State.resetAnswer? (s : State) (bus : Key Bus) : Option (Except UsbError Unit) :=
  (s.buses.get bus).plan.toggleReset.current?.bind (·.reply.reply.outcome?)

namespace Bus

variable {play : Player}

/-- Whatever the table of the bus or its code does, the answer is the one for this call. -/
theorem ensures_resetToggles_answers (hplay : play.UsesOnlyAtHand) (hw : w.Tame none)
    (bus : Key Bus) (asker : Option (Key Batch)) (target : Target) (scope : ResetScope) :
    Ensures (resetToggles play bus asker target scope) w fun r w' =>
      (w.called bus (.resetRequested bus asker target scope)).history <:+ w'.history ∧
        ∀ answer?, r = .ok answer? → answer? = w.state.resetAnswer? bus := by
  have hcalled : (w.called bus (.resetRequested bus asker target scope)).Tame none :=
    (World.UsesOnly.of_call rfl (by simp) hw).tame
  unfold resetToggles
  simp only [ensures_bind, ensures_nextHook, ensures_record, then_ok]
  change Ensures _ (w.called bus (.resetRequested bus asker target scope)) _
  unfold State.resetAnswer?
  cases (w.state.buses.get bus).plan.toggleReset.current? with
  | none => exact ⟨List.suffix_refl _, fun answer? h => (Except.ok.inj h).symm⟩
  | some hook =>
      obtain ⟨code, table?, reply⟩ := hook
      -- the code of the bus runs in the end, whatever its table did before
      have hrest : ∀ {answer : Run (Option (Except UsbError Unit))} {w₁ : World},
          answer = pure reply.outcome? →
          (w.called bus (.resetRequested bus asker target scope)).UsesOnly none w₁ →
            Ensures (play.run none code >>= fun _ => answer) w₁ fun r w' =>
              (w.called bus (.resetRequested bus asker target scope)).history <:+ w'.history ∧
                ∀ answer?, r = .ok answer? → answer? = reply.outcome? := by
        rintro _ w₁ rfl h₁
        have hrun : UsesOnly none (play.run none code) := hplay.run code
        rw [ensures_bind]
        refine Ensures.mono (hrun.after h₁) fun r w₂ h₂ => ?_
        cases r with
        | error fault => exact ⟨h₂.suffix, by simp⟩
        | ok _ => exact ⟨h₂.suffix, fun _ h => (Except.ok.inj h).symm⟩
      simp only [ensures_bind, ensures_getState, then_ok]
      cases table?.bind
          (w.called bus (.resetRequested bus asker target scope)).state.directory.tables.find? with
      | none => exact hrest (by cases reply <;> rfl) (.refl hcalled)
      | some t =>
          simp only [ensures_bind]
          have hreset : UsesOnly none (Table.resetToggles t target scope) :=
            hplay.walk.resetTable (fun _ => trivial) target scope
          refine Ensures.mono (hreset.ensures hcalled) fun r w₁ h₁ => ?_
          cases r with
          | error fault => exact ⟨h₁.suffix, by simp⟩
          | ok count =>
              rw [then_ok, ensures_bind, ensures_record]
              exact hrest (by cases reply <;> rfl) (h₁.trans
                (.of_step (.note (o := .tableResetByBus bus count) trivial) h₁.tame rfl rfl
                  (.cons rfl rfl)))

end Bus

/-- What comes of it that a batch on an endpoint is to have toggles reset.  If its transfer failed,
the bus of the endpoint is asked, and the answer is the one for this call; else nobody is asked. -/
def Batch.Consults (b : Key Batch) (e : Key Endpoint) (w : World)
    (r : Except Fault (Except UsbError Unit)) (w' : World) : Prop :=
  if (w.state.transferOf b).NeedsReset then
    ((w.note (.togglesResetting b)).called (w.state.busOf e)
      (.resetRequested (w.state.busOf e) (some b) (w.state.transferOf b).target
        (w.state.transferOf b).scope)).history <:+ w'.history ∧
      ∀ outcome, r = .ok outcome →
        outcome = (w.state.resetAnswer? (w.state.busOf e)).getD (.error .noToggleReset)
  else r = .ok (.ok ()) ∧ w' = w

theorem Batch.ensures_resetToggles_consults {play : Player} (hplay : play.UsesOnlyAtHand)
    (hw : w.Tame none) (he : (w.state.batches.get b).endpoint = some e) :
    Ensures (resetToggles play b) w (Consults b e w) := by
  have hbegun : (w.note (.togglesResetting b)).Tame none :=
    (World.UsesOnly.of_step (.note (o := .togglesResetting b) trivial) hw rfl rfl
      (.cons rfl rfl)).tame
  unfold resetToggles Consults
  simp only [ensures_bind, ensures_getState, then_ok, he]
  split
  · next hneeds =>
      simp only [ensures_bind, ensures_record, then_ok]
      refine Ensures.mono (Bus.ensures_resetToggles_answers hplay hbegun _ _ _ _)
        fun r w' hr => ?_
      obtain ⟨hsuffix, hanswer⟩ := hr
      cases r with
      | error fault => exact ⟨hsuffix, by simp⟩
      | ok answer? =>
          have hsame : answer? = w.state.resetAnswer? (w.state.busOf e) := hanswer answer? rfl
          rw [then_ok, ← hsame]
          cases answer? <;> exact ⟨hsuffix, fun _ h => (Except.ok.inj h).symm⟩
  · exact ⟨rfl, rfl⟩

/-! ## The creation of a batch -/

/-- A handle is in use. -/
def World.lend (w : World) (handle : Handle) : World :=
  w.alter (·.setDirectory fun d => { d with loans := handle :: d.loans })

/-- What comes of the request for a batch on an endpoint.  Its bus is asked, and by the behaviour
for this call the batch is built on an endpoint, or refused.  Whatever happens, nothing is left in
flight, and no other batch is left without a name that did not end. -/
structure Batch.Creates (w : World) (e : Key Endpoint)
    (r : Except Fault (Except UsbError (Key Batch))) (w' : World) : Prop where
  asked : (w.asked (w.state.busOf e) e).history <:+ w'.history
  /-- The batch is new, and it is on the endpoint of the choice of the bus, where it was built. -/
  built : ∀ b, r = .ok (.ok b) → w.state.batches.size ≤ b.index ∧ w'.Loose b ∧
    ∃ home, w.state.home (w.state.busOf e) e = .ok home ∧
      (w'.state.batches.get b).endpoint = some home ∧
        ∃ m ∈ w'.history, m.occurrence = .batchBuilt b home ∧ w'.Settled m b home
  refused : ∀ error, r = .ok (.error error) → w.state.home (w.state.busOf e) e = .error error
  raised : ∀ fault, r = .error fault → fault.Raised
  spare : ∀ x, w'.state.spare x = w.state.spare x
  counted : ∀ x, (w'.state.endpoints.get x).references = w'.state.handlesOn x
  pending : ∀ b, r ≠ .ok (.ok b) → w'.Pending b → w.Pending b

namespace Session

/-- Whatever a bus does when it is asked for a batch, it is settled what comes of it. -/
theorem Reachable.ensures_creates (h : Reachable w) {name : String} {handle : Handle}
    (hfind : w.state.directory.handles.find? name = some handle) (limit : Nat) :
    Ensures (Batch.create (player limit) handle.endpoint) (w.lend handle)
      (Batch.Creates (w.lend handle) handle.endpoint) := by
  have hlend : Changes Hands.empty w (w.lend handle) :=
    .single (.lend (Names.mem_values_of_find? hfind))
  have hready := hlend.ready h.ready
  have htame : (w.lend handle).Tame none :=
    ⟨h.tame.nodup, h.tame.exist, h.tame.loose, h.tame.unspent, h.tame.unended, h.tame.known,
      h.tame.numbers⟩
  have hasked := World.asked_moves Hands.empty (w.lend handle)
    ((w.lend handle).state.busOf handle.endpoint) handle.endpoint
  refine Ensures.mono ((Batch.ensures_create (player_fair limit) hready List.mem_cons_self).and
    (Batch.ensures_create_brings (usesOnlyAtHand_player limit) htame handle.endpoint))
      fun r w' hr => ?_
  obtain ⟨hsupplies, hbrings⟩ := hr
  have hlater : Moves Hands.empty [] [] ((w.lend handle).asked
      ((w.lend handle).state.busOf handle.endpoint) handle.endpoint) w' := by
    cases r with
    | error fault => exact hsupplies.1
    | ok answer => exact hsupplies.1.1
  have hmoves := hasked.trans hlater
  have hchanges : Changes Hands.empty World.empty w' :=
    (h.changes.trans hlend).trans hmoves.changes
  refine ⟨hlater.changes.adds.suffix, ?_, ?_, ?_, fun x => ?_, ?_, fun b hb => ?_⟩
  · rintro b rfl
    obtain ⟨⟨-, hown⟩, home, hhome, hendpoint⟩ := hsupplies
    exact ⟨hbrings.fresh b rfl, (hown b rfl).loose, home, hhome, hendpoint,
      hchanges.homes.settled_of_endpoint hendpoint⟩
  · rintro error rfl
    exact hsupplies.2
  · rintro fault rfl
    exact hsupplies.2
  · have hspare := hmoves.spare x
    simpa only [List.append_nil, List.count_nil, Nat.add_zero] using hspare
  · exact (hmoves.ready hready).sound.counted
  · refine hbrings.touchesOnly.pending b fun heq => hb ?_
    cases r with
    | error fault => cases heq
    | ok answer =>
        cases answer with
        | error error => cases heq
        | ok b' =>
            obtain rfl := Option.some.inj heq
            rfl

/-- However user code comes to end a batch by its name, the bus of its home is told meanwhile,
unless it gave up when the last reference on its endpoint went away. -/
theorem Reachable.ensures_farewell (h : Reachable w) (name : String)
    (hfind : w.state.directory.batches.find? name = some b)
    (he : (w.state.batches.get b).endpoint = some e) (limit : Nat) (ending : Batch.Ending) :
    Ensures (endBatch name fun b => ending.run (player limit) b) w fun _ w' =>
      (∃ since, w'.history = since ++ w.history ∧
        ∃ m ∈ since, m.occurrence = .batchFarewell (w.state.busOf e) b) ∨
        ∃ w₁ : World, (Batch.givenUp b e w₁).history <:+ w'.history ∧
          (Endpoint.release (player limit) e).Faults (Batch.givenUp b e w₁) := by
  have hobeys := endBatch_obeys (player_fair limit) h.ready name ending
  have huses : UsesOnly none (endBatch name fun b => ending.run (player limit) b) :=
    usesOnly_endBatch (usesOnlyAtHand_player limit) name ending
  refine Ensures.mono ((h.ensures_disposes name hfind limit ending).and
    (Ensures.and hobeys (huses.ensures h.tame))) fun r w' hr => ?_
  obtain ⟨hdisposes, hmoves, htouches⟩ := hr
  have hchanges := hmoves.moves.changes
  obtain ⟨_, -, -, hsettled⟩ := h.changes.homes.settled_of_endpoint he
  have hhome := hchanges.home h.ready.sound hsettled.home
  have hsteps : LifecycleSteps World.empty w' := h.lifecycleSteps.trans htouches.steps
  obtain @⟨w₁, released, left, invoked, hreleased, hleft, -, -, -, -, hdismissed, -⟩ := hdisposes
  rcases hdismissed e he with ⟨m, hm, bus, ho⟩ | ⟨w₂, hearly, hfaults⟩
  · have hm := hleft.suffix.subset hm
    have hbus := hhome.bus_of_farewell hsteps.farewells hm ho
    rw [(hchanges.busOf_eq hsettled.home.exist).1] at hbus
    obtain ⟨since, hsince⟩ := htouches.suffix
    refine .inl ⟨since, hsince.symm, m, ?_, hbus ▸ ho⟩
    refine (List.mem_append.mp (hsince ▸ hm)).resolve_right fun hold => ?_
    rw [h.lifecycleSteps.farewells.endpoint_none hold ho] at he
    cases he
  · exact .inr ⟨w₂, hearly.trans hleft.suffix, hfaults⟩

/-- Wherever user code got control, the plans that buses had then and the calls since tell their
plans. -/
theorem Reachable.plan_since (h : Reachable w) {m : Moment} {earlier : List Moment}
    (hm : m :: earlier <:+ w.history) (hyields : m.occurrence.Yields) {bus : Key Bus}
    (hbus : bus.index < m.state.buses.size) :
    ∃ since, w.history = since ++ m :: earlier ∧
      (w.state.buses.get bus).plan = BusPlan.since bus (m.state.buses.get bus).plan since := by
  have hnew : ¬ m :: earlier <:+ World.empty.history :=
    fun hempty => absurd (List.suffix_nil.mp hempty) (List.cons_ne_nil _ _)
  exact (LifecycleSteps.plan (h.lifecycleSteps.amid hm hnew hyields).2 hbus).2

/-- Whatever its bus answers to the request for a batch, and whatever user code does meanwhile, the
batch that is created is at home on the endpoint of the choice of the bus, and nothing is left
behind on others or of others.  Wherever user code gets control, all batches are described as they
were built and have asked no other bus than that of their home for a reset, and no other was told of
them.  That bus is asked whenever toggles are to be reset, and told when the batch ends, even if it
was just told that the endpoint is gone, unless it gave up then.  Each call goes by the behaviour
that the bus has then, and uses it up. -/
theorem Reachable.batch_has_home (h : Reachable w) :
    (∀ limit name handle, w.state.directory.handles.find? name = some handle →
      Ensures (Batch.create (player limit) handle.endpoint) (w.lend handle)
        (Batch.Creates (w.lend handle) handle.endpoint)) ∧
    (∀ m ∈ w.history, ∀ b e, m.occurrence = .batchBuilt b e → w.Settled m b e ∧
      ∀ m' ∈ w.history, ∀ bus, m'.occurrence = .batchFarewell bus b → bus = w.state.busOf e) ∧
    (∀ limit b e, (w.state.batches.get b).endpoint = some e →
      Ensures (Batch.resetToggles (player limit) b) w (Batch.Consults b e w)) ∧
    (∀ limit name b e ending, w.state.directory.batches.find? name = some b →
      (w.state.batches.get b).endpoint = some e →
        Ensures (endBatch name fun b => Batch.Ending.run (player limit) b ending) w fun _ w' =>
          (∃ since, w'.history = since ++ w.history ∧
            ∃ m ∈ since, m.occurrence = .batchFarewell (w.state.busOf e) b) ∨
            ∃ w₁ : World, (Batch.givenUp b e w₁).history <:+ w'.history ∧
              (Endpoint.release (player limit) e).Faults (Batch.givenUp b e w₁)) ∧
    ∀ m earlier bus, m :: earlier <:+ w.history → m.occurrence.Yields →
      bus.index < m.state.buses.size → ∃ since, w.history = since ++ m :: earlier ∧
        (w.state.buses.get bus).plan = BusPlan.since bus (m.state.buses.get bus).plan since := by
  refine ⟨fun limit name handle hfind => h.ensures_creates hfind limit, fun m hm b e ho => ?_,
    fun limit b e he => Batch.ensures_resetToggles_consults (usesOnlyAtHand_player limit) h.tame he,
    fun limit name b e ending hfind he => h.ensures_farewell name hfind he limit ending,
    fun m earlier bus hm hyields hbus => h.plan_since hm hyields hbus⟩
  have hsettled := h.changes.homes.settled m hm b e ho
  exact ⟨hsettled, fun m' hm' bus hfarewell =>
    hsettled.home.bus_of_farewell h.lifecycleSteps.farewells hm' hfarewell⟩

/-- A bus that is asked for a batch builds it on an endpoint of another bus.  When the batch ends,
it has the last reference there, and the other bus is told of both. -/
theorem batch_has_home_elsewhere :
    ∃ w, Reachable w ∧ w.state.directory.batches.find? "transfer" = some ⟨0⟩ ∧
      w.state.busOf ⟨0⟩ = ⟨0⟩ ∧ w.state.busOf ⟨1⟩ = ⟨1⟩ ∧
      (∃ m ∈ w.history, m.occurrence = .batchRequested ⟨0⟩ ⟨0⟩) ∧
      (∃ m ∈ w.history, m.occurrence = .batchBuilt ⟨0⟩ ⟨1⟩ ∧ w.Settled m ⟨0⟩ ⟨1⟩) ∧
      let w' := (endBatch "transfer" (Batch.Ending.destroy.run (player 1))).worldAfter w
      w'.tally (Occurrence.farewellTo ⟨1⟩) = 1 ∧
        ∃ m ∈ w'.history, m.occurrence = .batchFarewell ⟨1⟩ ⟨0⟩ := by
  obtain ⟨w, hw⟩ : ∃ w, w = after 1
      [.addBus "hub" { BusPlan.bare Script with
          batchCreate := ⟨[⟨none, .built (some "side")⟩]⟩ },
        .addBus "other" (BusPlan.bare Script), .addEndpoint "hub" default "pipe",
        .addEndpoint "other" default "side", .createBatch "pipe" "transfer",
        .releaseHandle "side"] := ⟨_, rfl⟩
  have hreachable : Reachable w := hw ▸ .idle (idle_after 1 _)
  have hbuilt : ∃ m ∈ w.history, m.occurrence = .batchBuilt ⟨0⟩ ⟨1⟩ := by
    subst hw
    exact ⟨_, List.mem_of_getElem? (i := 2) rfl, rfl⟩
  obtain ⟨m, hm, ho⟩ := hbuilt
  have hsettled := (hreachable.batch_has_home.2.1 m hm ⟨0⟩ ⟨1⟩ ho).1
  refine ⟨w, hreachable, ?_, ?_, ?_, ?_, ⟨m, hm, ho, hsettled⟩, ?_⟩ <;> subst hw
  · decide
  · decide
  · decide
  · exact ⟨_, List.mem_of_getElem? (i := 4) rfl, rfl⟩
  · exact ⟨by decide, _, List.mem_of_getElem? (i := 2) rfl, rfl⟩

end Session
end UsbTransfer
