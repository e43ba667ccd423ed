import UsbTransfer.Proofs.ToggleSteps.Sessions

/-!
# The alternation of toggles

The toggle of an endpoint is what became of DATA0 by the events on record, in their order: it was
set, it was advanced, or a table reset it that held the endpoint.  Nothing else that the library
does changes a toggle by itself; what hooks and handlers do meanwhile is told by events of theirs.
-/

namespace UsbTransfer

open Run

/-! ## Calls of the library -/

/-- What endpoints, tables and batches can be asked for. -/
inductive Call where
  | createEndpoint (bus : Key Bus) (descriptor : Descriptor)
  | acquire (endpoint : Key Endpoint)
  | release (endpoint : Key Endpoint)
  | setToggle (endpoint : Key Endpoint) (value : Bool)
  | advanceToggle (endpoint : Key Endpoint)
  | register (table : Key Table) (endpoint : Key Endpoint)
  | find (table : Key Table) (target : Target)
  | remove (table : Key Table) (target : Target)
  | removeDevice (table : Key Table) (address : UInt8)
  | resetTable (table : Key Table) (target : Target) (scope : ResetScope)
  | destroyTable (table : Key Table)
  | createBatch (endpoint : Key Endpoint)
  | buildBatch (endpoint : Key Endpoint)
  | setScope (batch : Key Batch) (scope : ResetScope)
  | setSetup (batch : Key Batch) (setup : SetupPacket)
  | setBuffer (batch : Key Batch) (data : List UInt8)
  | allocBuffer (batch : Key Batch) (length : Nat) (granted : Bool)
  | schedule (batch : Key Batch)
  | complete (batch : Key Batch) (status : Status) (actual : Nat)
  | attachHandler (batch : Key Batch) (action : HandlerAction) (captured : List (Key Endpoint))
      (noisy : Bool)
  | attachData (batch : Key Batch) (value : DataValue)
  | takeData (batch : Key Batch) (type : DataType)
  | resetToggles (batch : Key Batch)
  | finish (batch : Key Batch)
  | abort (batch : Key Batch)
  | destroy (batch : Key Batch)
  | drop (batch : Key Batch)

/-- Does something of which the answer does not matter. -/
def Run.unanswered {α : Type} (m : Run α) : Run Unit := do
  let _ ← m
  return ()

theorem makesOnly_unanswered {α : Type} {P : ToggleEvent → Prop} {m : Run α} (hm : MakesOnly P m) :
    MakesOnly P m.unanswered :=
  hm.bind fun _ => follows_pure ()

namespace Call

/-- Carries out a call. -/
def run (play : Player) : Call → Run Unit
  | .createEndpoint bus descriptor => (Endpoint.create bus descriptor).unanswered
  | .acquire e => Endpoint.acquire e
  | .release e => Endpoint.release play e
  | .setToggle e value => Endpoint.setToggle e value
  | .advanceToggle e => (Endpoint.advanceToggle e).unanswered
  | .register t e => (Table.register play t e).unanswered
  | .find t target => (Table.find? t target).unanswered
  | .remove t target => (Table.remove t target).unanswered
  | .removeDevice t address => (Table.removeDevice t address).unanswered
  | .resetTable t target scope => (Table.resetToggles t target scope).unanswered
  | .destroyTable t => Table.destroy play t
  | .createBatch e => (Batch.create play e).unanswered
  | .buildBatch e => (Batch.build e).unanswered
  | .setScope b scope => Batch.modifyTransfer b (·.setScope scope)
  | .setSetup b setup => Batch.setSetup b setup
  | .setBuffer b data => Batch.modifyTransfer b (·.setBuffer data)
  | .allocBuffer b length granted => (Batch.allocBuffer b length granted).unanswered
  | .schedule b => Batch.schedule b
  | .complete b status actual => Batch.modifyTransfer b (·.complete status actual)
  | .attachHandler b action captured noisy => Batch.attachHandler play b action captured noisy
  | .attachData b value => Batch.attachData play b value
  | .takeData b type => (Batch.takeDataOf? b type).unanswered
  | .resetToggles b => (Batch.resetToggles play b).unanswered
  | .finish b => Batch.finish play b
  | .abort b => Batch.abort play b
  | .destroy b => Batch.destroy play b
  | .drop b => Batch.drop play b

/-- The events that a call may bring about by itself.  A batch whose transfer failed asks its bus
for a reset, which the bus may leave to a table. -/
def Makes : Call → ToggleEvent → Prop
  | .createEndpoint _ _, .created _ => True
  | .setToggle e value, .set e' value' => e' = e ∧ value' = value
  | .advanceToggle e, .advanced e' => e' = e
  | .resetTable t _ _, .reset t' _ => t' = t
  | .resetToggles _, .reset _ _ | .finish _, .reset _ _ | .abort _, .reset _ _ => True
  | _, _ => False

/-- A call brings about no events but its own, apart from those of the scripts that are played. -/
theorem makesOnly_run {P : ToggleEvent → Prop} {play : Player} (hplay : play.MakesOnly P)
    (call : Call) :
    MakesOnly (fun event => P event ∨ call.Makes event) (call.run play) := by
  have hwalk := (hplay.mono fun event => Or.inl (b := call.Makes event)).walk
  cases call with
  | createEndpoint bus descriptor =>
      exact makesOnly_unanswered (hwalk.createEndpoint (fun _ => .inr trivial) bus descriptor)
  | acquire e => exact hwalk.acquire e
  | release e => exact hwalk.release e
  | setToggle e value => exact hwalk.setToggle (.inr ⟨rfl, rfl⟩)
  | advanceToggle e => exact makesOnly_unanswered (hwalk.advanceToggle (.inr rfl))
  | register t e => exact makesOnly_unanswered (hwalk.register t e)
  | find t target => exact makesOnly_unanswered (hwalk.find t target)
  | remove t target => exact makesOnly_unanswered (hwalk.remove t target)
  | removeDevice t address => exact makesOnly_unanswered (hwalk.removeDevice t address)
  | resetTable t target scope =>
      exact makesOnly_unanswered (hwalk.resetTable (fun _ => .inr rfl) target scope)
  | destroyTable t => exact hwalk.destroyTable t
  | createBatch e => exact makesOnly_unanswered (hwalk.create e)
  | buildBatch e => exact makesOnly_unanswered (hwalk.build e)
  | setScope b scope => exact hwalk.modifyTransfer b (·.setScope scope)
  | setBuffer b data => exact hwalk.modifyTransfer b (·.setBuffer data)
  | complete b status actual => exact hwalk.modifyTransfer b (·.complete status actual)
  | setSetup b setup =>
      exact Batch.follows_edit (hwalk.modifyTransfer b) fun s => (s.transferOf b).setSetup setup
  | allocBuffer b length granted =>
      exact makesOnly_unanswered
        (hwalk.toLibraryWalk.allocBuffer (hwalk.modifyTransfer b) length granted)
  | schedule b =>
      exact Batch.follows_edit (hwalk.modifyTransfer b) fun s => (s.transferOf b).schedule
  | attachHandler b action captured noisy =>
      exact hwalk.attachHandler b captured noisy fun _ _ _ _ => trivial
  | attachData b value => exact hwalk.attachData b value
  | takeData b type =>
      exact makesOnly_unanswered (LibraryWalk.takeDataOf? ToggleStep.of_dataStep type)
  | resetToggles b => exact makesOnly_unanswered (hwalk.resetOfBatch (fun _ _ => .inr trivial) b)
  | finish b => exact hwalk.finish (fun _ _ => .inr trivial) b
  | abort b => exact hwalk.abort (fun _ _ => .inr trivial) b
  | destroy b => exact hwalk.destroy b
  | drop b => exact hwalk.drop b

end Call

/-! ## The toggles of a world -/

variable {w : World} {e : Key Endpoint}

/-- A table that is free resets toggles in one event. -/
theorem Table.toggled_resetToggles {t : Key Table}
    (hfree : (w.state.tables.get t).lock = .free) (target : Target) (scope : ResetScope)
    {reached : List (Key Endpoint)}
    (hreached : (w.state.tables.get t).reached w.state.targetOf target scope = reached) :
    Ensures (resetToggles t target scope) w fun r w' =>
      r = .ok reached.length ∧ w.Toggled (· = .reset t reached) w' [.reset t reached] := by
  have hlocked : ((w.state.lockTable t .held).tables.get t).reached
      (w.state.lockTable t .held).targetOf target scope = reached := by
    rw [← hreached, Table.reached, State.slots_lockTable]
    rfl
  have hlock : w.Toggled (· = .reset t reached) (w.alter (·.lockTable t .held)) [] :=
    World.toggled_alter (.of_endpoints rfl)
  have hbody : ∀ es, es = reached → Ensures (do
      es.forM fun e => Endpoint.setToggle e false
      record (.tableReset t es)
      return es.length) (w.alter (·.lockTable t .held)) fun r w' =>
        r = .ok reached.length ∧ w.Toggled (· = .reset t reached) w' [.reset t reached] := by
    rintro es rfl
    rw [ensures_bind]
    apply Ensures.mono (Endpoint.ensures_resetEach_eq es _)
    rintro r w' ⟨rfl, rfl⟩
    exact ⟨rfl, hlock.trans (World.toggled_reset rfl)⟩
  unfold resetToggles locking
  rw [ensures_guarding hfree, ensures_bind, ensures_getState, then_ok]
  apply Ensures.mono (hbody _ hlocked)
  rintro r w' ⟨rfl, hreset⟩
  exact ⟨rfl, hreset.trans (World.toggled_alter (f := (·.lockTable t .free)) (.of_endpoints rfl))⟩

namespace Session

/-- What is known of the toggles in a world, and of those in the worlds that follow. -/
structure TogglesTold (w : World) : Prop where
  /-- Now and at every moment on record, they are what the events so far make of DATA0. -/
  replayed : w.ReplayedThroughout
  /-- The endpoints that a table reset were all that it held of those that the reset reaches. -/
  resets : w.ResetsHeld
  /-- Whatever name an endpoint is known by, its toggle can be set, and that is an event. -/
  set : ∀ (play : Player) (atHand : Option (Key Batch)) (name : String) (handle : Handle)
    (value : Bool), w.state.directory.handles.find? name = some handle →
      Ensures (carryOut play atHand (.setToggle name value)) w fun r w' =>
        r = .ok (.ok .done) ∧ w'.state.toggleOf handle.endpoint = value ∧
          w.Toggled (· = .set handle.endpoint value) w' [.set handle.endpoint value]
  /-- It can also be advanced, which tells its new value. -/
  advance : ∀ (play : Player) (atHand : Option (Key Batch)) (name : String) (handle : Handle),
    w.state.directory.handles.find? name = some handle →
      Ensures (carryOut play atHand (.advanceToggle name)) w fun r w' =>
        r = .ok (.ok (.flag (!w.state.toggleOf handle.endpoint))) ∧
          w'.state.toggleOf handle.endpoint = !w.state.toggleOf handle.endpoint ∧
            w.Toggled (· = .advanced handle.endpoint) w' [.advanced handle.endpoint]
  reset : ∀ (t : Key Table) (target : Target) (scope : ResetScope),
    Ensures (Table.resetToggles t target scope) w fun r w' =>
      ∃ reached, r = .ok reached.length ∧
        (∀ x, x ∈ reached ↔ x ∈ (w.state.tables.get t).slots.values ∧
          scope.Reaches target (w.state.targetOf x)) ∧
        w.Toggled (· = .reset t reached) w' [.reset t reached]
  /-- A call brings about no events but its own, apart from those of the scripts that are played. -/
  calls : ∀ (P : ToggleEvent → Prop) (play : Player), play.MakesOnly P → ∀ call : Call,
    Ensures (call.run play) w fun _ w' =>
      ∃ made, w.Toggled (fun event => P event ∨ call.Makes event) w' made
  /-- A call without events of its own leaves all toggles alone, if the scripts do. -/
  spared : ∀ play : Player, play.MakesOnly (fun _ => False) → ∀ call : Call,
    (∀ event, ¬ call.Makes event) →
      Ensures (call.run play) w fun _ w' => ∀ x, x.index < w.state.endpoints.size →
        w'.state.toggleOf x = w.state.toggleOf x

theorem toggle_set {handle : Handle} {name : String} (value : Bool) (play : Player)
    (atHand : Option (Key Batch))
    (hfind : w.state.directory.handles.find? name = some handle)
    (hexists : handle.endpoint.index < w.state.endpoints.size) :
    Ensures (carryOut play atHand (.setToggle name value)) w fun r w' =>
      r = .ok (.ok .done) ∧ w'.state.toggleOf handle.endpoint = value ∧
        w.Toggled (· = .set handle.endpoint value) w' [.set handle.endpoint value] := by
  have htoggle : _ = (ToggleEvent.set handle.endpoint value).apply handle.endpoint _ :=
    World.toggleOf_setToggle hexists
  simp only [ToggleEvent.apply, if_true] at htoggle
  simp only [carryOut, setToggle, withEndpoint, endpointNamed, ensures_bind, ensures_getState,
    then_ok, hfind]
  exact ⟨rfl, htoggle, World.toggled_setToggle rfl⟩

theorem toggle_advanced {handle : Handle} {name : String} (play : Player)
    (atHand : Option (Key Batch))
    (hfind : w.state.directory.handles.find? name = some handle)
    (hexists : handle.endpoint.index < w.state.endpoints.size) :
    Ensures (carryOut play atHand (.advanceToggle name)) w fun r w' =>
      r = .ok (.ok (.flag (!w.state.toggleOf handle.endpoint))) ∧
        w'.state.toggleOf handle.endpoint = !w.state.toggleOf handle.endpoint ∧
          w.Toggled (· = .advanced handle.endpoint) w' [.advanced handle.endpoint] := by
  have htoggle := World.toggleOf_advanceToggle (e := handle.endpoint) hexists
  simp only [ToggleEvent.apply, if_true] at htoggle
  simp only [carryOut, advanceToggle, withEndpoint, endpointNamed, ensures_bind, ensures_getState,
    then_ok, hfind]
  exact ⟨congrArg (fun value => Except.ok (Except.ok (Answer.flag value))) htoggle, htoggle,
    World.toggled_advanceToggle rfl⟩

/-- Toggles change where they are meant to and nowhere else: in every world of every session they
are what the events on record make of DATA0, and only setting, advancing and resetting them makes
such events. -/
theorem Reachable.toggles_told (h : Reachable w) : TogglesTold w where
  replayed := h.replayedThroughout
  resets := h.resetsHeld
  set := fun play atHand name handle value hfind =>
    toggle_set value play atHand hfind
      (State.index_lt_of_references_pos (h.ready.sound.references_pos_of_find? hfind))
  advance := fun play atHand name handle hfind =>
    toggle_advanced play atHand hfind
      (State.index_lt_of_references_pos (h.ready.sound.references_pos_of_find? hfind))
  reset := by
    intro t target scope
    apply Ensures.mono (Table.toggled_resetToggles (h.ready.sound.tablesFree t) target scope rfl)
    rintro r w' ⟨rfl, htoggled⟩
    refine ⟨_, rfl, fun x => ?_, htoggled⟩
    rw [Table.reached, List.mem_filter, decide_eq_true_iff]
  calls := fun P play hplay call =>
    Ensures.mono (call.makesOnly_run hplay w) fun _ _ hr => toggled_of_steps hr
  spared := by
    intro play hplay call hnone
    apply Ensures.mono (call.makesOnly_run hplay w)
    intro r w' hsteps x hx
    obtain ⟨made, hmade⟩ := toggled_of_steps hsteps
    have hnothing : made = [] :=
      List.eq_nil_iff_forall_not_mem.mpr fun event hevent =>
        (hmade.kind event hevent).elim id (hnone event)
    rw [hmade.toggle_eq hx, hnothing]
    rfl

/-- A bus that is told of an endpoint without references finds the toggle as it was left by the
last event. -/
theorem toggles_told_at_farewell :
    ∃ w, Reachable w ∧ w.state.toggleOf ⟨0⟩ = true ∧
      ToggleEvent.all w.history =
        [.advanced ⟨0⟩, .reset ⟨0⟩ [⟨0⟩], .advanced ⟨0⟩, .set ⟨0⟩ false, .created ⟨0⟩] ∧
      TogglesTold w := by
  have hreachable := (idle_after 1
    [.addBus "hub" (BusPlan.bare Script), .addTable "table",
      .addEndpoint "hub" ⟨⟨1, 2, .inbound⟩, .bulk, 64⟩ "in", .setToggle "in" false,
      .advanceToggle "in", .addReference "in" "copy", .register "table" "copy",
      .resetTable "table" ⟨1, 0, .both⟩ .device, .remove "table" ⟨1, 2, .both⟩ none,
      .advanceToggle "in", .releaseHandle "in"]).reachable_at 1 rfl trivial
  exact ⟨_, hreachable, by decide, by decide, hreachable.toggles_told⟩

end Session
end UsbTransfer
