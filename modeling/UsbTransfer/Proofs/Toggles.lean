import UsbTransfer.Proofs.Exclusion
import UsbTransfer.Proofs.Lifetimes

/-!
# Toggles after a failed transfer

A batch whose transfer failed asks its bus to reset toggles before its handler starts, and a bus
that keeps a table of endpoints leaves that to the table.  How far the reset reaches depends on the
scope of the transfer, and for the scope of one endpoint also on what the table holds: the target of
an installed endpoint matches that endpoint alone, since the table is exclusive.
-/

namespace UsbTransfer

open Run

/-- The data toggle of the next packet. -/
def State.toggleOf (s : State) (e : Key Endpoint) : Bool :=
  (s.endpoints.get e).toggle

/-- How many toggles a bus had its table reset. -/
def Occurrence.resetCount? : Occurrence → Option Nat
  | .tableResetByBus _ count => some count
  | _ => none

/-! ## What a reset reaches -/

namespace Table

variable {targetOf : Key Endpoint → Target} {t : Table} {e : Key Endpoint}

theorem reached_eq_matching (target : Target) :
    t.reached targetOf target .endpoint = (matching targetOf t target).map (·.2) := by
  rw [matching, reached, ← Slots.entries_map_snd, List.filter_map]
  rfl

/-- In an exclusive table the target of an installed endpoint reaches that endpoint alone, even if
it is bidirectional. -/
theorem Exclusive.reached_endpoint (h : Exclusive targetOf t) (he : e ∈ t.slots.values) :
    t.reached targetOf (targetOf e) .endpoint = [e] := by
  obtain ⟨slot, hslot⟩ := Slots.mem_values.mp he
  have hself : (slot, e) ∈ matching targetOf t (targetOf e) := mem_matching.mpr ⟨hslot, .refl _⟩
  have hone := h.length_matching_le_one_of_installed hslot rfl
  rw [reached_eq_matching]
  rcases hmatching : matching targetOf t (targetOf e) with _ | ⟨entry, _ | ⟨_, _⟩⟩
  · rw [hmatching] at hself
    cases hself
  · rw [hmatching, List.mem_singleton] at hself
    rw [← hself]
    rfl
  · rw [hmatching] at hone
    simp at hone

theorem mem_reached_device {target : Target} :
    e ∈ t.reached targetOf target .device ↔
      e ∈ t.slots.values ∧ (targetOf e).address = target.address := by
  unfold reached
  rw [List.mem_filter, decide_eq_true_iff]
  rfl

end Table

/-! ## Resets -/

/-- The toggles of these endpoints are reset and all others left alone, and these are the counts of
the resets that buses left to their tables. -/
structure World.Rewinds (es : List (Key Endpoint)) (counts : List Nat) (w w' : World) : Prop where
  toggles : ∀ x, w'.state.toggleOf x = if x ∈ es then false else w.state.toggleOf x
  counted : ∃ all, w.Trace all w' ∧ all.filterMap Occurrence.resetCount? = counts

namespace World.Rewinds

variable {es es' : List (Key Endpoint)} {counts counts' : List Nat} {w w' w'' : World}

theorem refl (w : World) : w.Rewinds [] [] w where
  toggles := by simp
  counted := ⟨[], .of_history_eq rfl, rfl⟩

theorem trans (h : w.Rewinds es counts w') (h' : w'.Rewinds es' counts' w'') :
    w.Rewinds (es ++ es') (counts ++ counts') w'' where
  toggles := by
    intro x
    rw [h'.toggles, h.toggles]
    by_cases hx : x ∈ es <;> simp [hx]
  counted := by
    obtain ⟨all, htrace, rfl⟩ := h.counted
    obtain ⟨all', htrace', rfl⟩ := h'.counted
    exact ⟨all ++ all', htrace.trans htrace', List.filterMap_append⟩

theorem alter (h : w.Rewinds es counts w') {f : State → State}
    (hendpoints : (f w'.state).endpoints = w'.state.endpoints) :
    w.Rewinds es counts (w'.alter f) where
  toggles := fun x => (congrArg (fun a => (Arena.get a x).toggle) hendpoints).trans (h.toggles x)
  counted := by
    obtain ⟨all, htrace, hcounts⟩ := h.counted
    exact ⟨all, htrace, hcounts⟩

theorem note (h : w.Rewinds es counts w') {o : Occurrence} (ho : o.resetCount? = none) :
    w.Rewinds es counts (w'.note o) where
  toggles := h.toggles
  counted := by
    obtain ⟨all, htrace, rfl⟩ := h.counted
    exact ⟨_, htrace.note o, by simp [ho]⟩

theorem count (h : w.Rewinds es counts w') (bus : Key Bus) (n : Nat) :
    w.Rewinds es (counts ++ [n]) (w'.note (.tableResetByBus bus n)) where
  toggles := h.toggles
  counted := by
    obtain ⟨all, htrace, rfl⟩ := h.counted
    exact ⟨_, htrace.note _, by simp [Occurrence.resetCount?]⟩

/-- What does not exist has the toggle DATA0 anyway. -/
theorem setToggle (w : World) (e : Key Endpoint) :
    w.Rewinds [e] []
      ((w.alter fun s =>
        { s with endpoints := s.endpoints.modify e fun x => { x with toggle := false } }).note
          (.toggleSet e false)) where
  toggles := by
    intro x
    by_cases hx : x = e
    · subst hx
      rcases Nat.lt_or_ge x.index w.state.endpoints.size with hsize | hsize
      · simp [State.toggleOf, Arena.get_modify_self _ _ _ hsize]
      · simp [State.toggleOf, Arena.modify_of_size_le _ _ _ hsize, Arena.get_of_size_le _ _ hsize,
          default]
    · simp [State.toggleOf, Arena.get_modify_of_ne _ _ hx, hx]
  counted := ⟨_, (Trace.alter w _).note _, rfl⟩

end World.Rewinds

variable {w : World} {play : Player}

/-- Toggles are reset one after the other. -/
theorem Endpoint.rewinds_resetEach (es : List (Key Endpoint)) :
    Ensures (es.forM fun e => Endpoint.setToggle e false) w fun r w' =>
      r = .ok () ∧ w.Rewinds es [] w' := by
  induction es generalizing w with
  | nil => exact ⟨rfl, .refl w⟩
  | cons e rest ih =>
      change Ensures (Endpoint.setToggle e false >>= fun _ =>
        rest.forM fun e => Endpoint.setToggle e false) _ _
      rw [ensures_bind, Endpoint.ensures_setToggle, then_ok]
      apply Ensures.mono ih
      rintro r w' ⟨rfl, hrest⟩
      exact ⟨rfl, (World.Rewinds.setToggle w e).trans hrest⟩

/-- A table resets the toggles that it reaches, and tells how many they are. -/
theorem Table.rewinds_resetToggles {t : Key Table} (hfree : (w.state.tables.get t).lock = .free)
    (target : Target) (scope : ResetScope) {reached : List (Key Endpoint)}
    (hreached : (w.state.tables.get t).reached w.state.targetOf target scope = reached) :
    Ensures (resetToggles t target scope) w fun r w' =>
      r = .ok reached.length ∧ w.Rewinds reached [] w' := by
  have hlocked : ((w.state.lockTable t .held).tables.get t).reached
      (w.state.lockTable t .held).targetOf target scope = reached := by
    rw [← hreached, Table.reached, State.slots_lockTable]
    rfl
  have hlock : w.Rewinds [] [] (w.alter (·.lockTable t .held)) := (World.Rewinds.refl w).alter rfl
  -- the endpoints that are found under the lock
  have hbody : ∀ es, es = reached → Ensures (do
      es.forM fun e => Endpoint.setToggle e false
      record (.tableReset t es)
      return es.length) (w.alter (·.lockTable t .held)) fun r w' =>
        r = .ok reached.length ∧ w.Rewinds reached [] w' := by
    rintro es rfl
    rw [ensures_bind]
    apply Ensures.mono (Endpoint.rewinds_resetEach es)
    rintro r w' ⟨rfl, hreset⟩
    exact ⟨rfl, (hlock.trans hreset).note rfl⟩
  unfold resetToggles locking
  rw [ensures_guarding hfree, ensures_bind, ensures_getState, then_ok]
  apply Ensures.mono (hbody _ hlocked)
  rintro r w' ⟨rfl, hreset⟩
  exact ⟨rfl, hreset.alter (f := (·.lockTable t .free)) rfl⟩

namespace Bus

/-- Asked to reset toggles, the bus has a table do it and does nothing else. -/
def Relays (s : State) (bus : Key Bus) (t : Key Table) : Prop :=
  ∃ hook, (s.buses.get bus).plan.toggleReset.current? = some hook ∧
    hook.code.getD [] = [] ∧ hook.reply.table.bind s.directory.tables.find? = some t

/-- A script without commands leaves the toggles alone. -/
def Quiet (play : Player) : Prop :=
  ∀ w, Ensures (play none []) w fun r w' => r = .ok () ∧ w.Rewinds [] [] w'

theorem Quiet.run (hquiet : Quiet play) {code : Option Script} (hcode : code.getD [] = []) :
    Ensures (play.run none code) w fun r w' => r = .ok () ∧ w.Rewinds [] [] w' := by
  cases code with
  | none => exact ⟨rfl, .refl w⟩
  | some script =>
      obtain rfl : script = [] := hcode
      exact hquiet w

/-- A bus that leaves the reset to its table counts what the table reached. -/
theorem rewinds_resetToggles (hquiet : Quiet play) {bus : Key Bus} {t : Key Table}
    (hrelays : Relays w.state bus t) (hfree : (w.state.tables.get t).lock = .free)
    (asker : Option (Key Batch)) (target : Target) (scope : ResetScope)
    {reached : List (Key Endpoint)}
    (hreached : (w.state.tables.get t).reached w.state.targetOf target scope = reached) :
    Ensures (resetToggles play bus asker target scope) w fun r w' =>
      ∃ answer, r = .ok answer ∧ w.Rewinds reached [reached.length] w' := by
  obtain ⟨hook, hcurrent, hcode, htable⟩ := hrelays
  unfold resetToggles
  simp only [ensures_bind, ensures_nextHook, ensures_record, ensures_getState, then_ok, hcurrent]
  generalize { (w.state.buses.get bus).plan with
    toggleReset := (w.state.buses.get bus).plan.toggleReset.advance } = plan
  obtain ⟨w₁, hw₁⟩ : ∃ w₁, w₁ = (w.alter (·.setPlan bus plan)).note
    (.resetRequested bus asker target scope) := ⟨_, rfl⟩
  have hasked : w.Rewinds [] [] w₁ := hw₁ ▸ ((World.Rewinds.refl w).alter rfl).note rfl
  have hfree₁ : (w₁.state.tables.get t).lock = .free := hw₁ ▸ hfree
  have hreached₁ : (w₁.state.tables.get t).reached w₁.state.targetOf target scope = reached :=
    hw₁ ▸ hreached
  have hfound : hook.reply.table.bind
      (w.state.setPlan bus plan).directory.tables.find? = some t := htable
  simp only [World.note_state, World.alter_state, hfound, ensures_bind]
  rw [← hw₁]
  apply Ensures.mono (Table.rewinds_resetToggles hfree₁ target scope hreached₁)
  rintro r w₂ ⟨rfl, hreset⟩
  simp only [then_ok, ensures_bind, ensures_record]
  apply Ensures.mono (hquiet.run hcode)
  rintro r w₃ ⟨rfl, hrun⟩
  have htotal := ((hasked.trans hreset).count bus reached.length).trans hrun
  rw [List.append_nil] at htotal
  cases hook.reply.reply <;> exact ⟨_, rfl, htotal⟩

end Bus

/-! ## Batches -/

namespace Batch

variable {hands : Hands} {w' : World} {b : Key Batch} {e : Key Endpoint} {t : Key Table}
  {transfer : Transfer}

/-- A table resets the toggles that a transfer makes necessary. -/
structure Recovers (t : Key Table) (transfer : Transfer) (w w' : World) : Prop where
  spared : ¬ transfer.NeedsReset → w.Rewinds [] [] w'
  reset : ∀ reached, transfer.NeedsReset →
    (w.state.tables.get t).reached w.state.targetOf transfer.target transfer.scope = reached →
      w.Rewinds reached [reached.length] w'

theorem Recovers.note (h : Recovers t transfer w w') {o : Occurrence} (ho : o.resetCount? = none) :
    Recovers t transfer w (w'.note o) where
  spared := fun hspared => (h.spared hspared).note ho
  reset := fun reached hneeds hreached => (h.reset reached hneeds hreached).note ho

theorem Recovers.of_noted {o : Occurrence} (h : Recovers t transfer (w.note o) w')
    (ho : o.resetCount? = none) :
    Recovers t transfer w w' where
  spared := fun hspared => ((World.Rewinds.refl w).note ho).trans (h.spared hspared)
  reset := fun reached hneeds hreached =>
    ((World.Rewinds.refl w).note ho).trans (h.reset reached hneeds hreached)

theorem recovers_resetToggles (hquiet : Bus.Quiet play)
    (hfree : (w.state.tables.get t).lock = .free)
    (he : (w.state.batches.get b).endpoint = some e)
    (hrelays : Bus.Relays w.state (w.state.busOf e) t) :
    Ensures (resetToggles play b) w fun r w' =>
      ∃ answer, r = .ok answer ∧ Recovers t (w.state.transferOf b) w w' := by
  unfold resetToggles
  simp only [ensures_bind, ensures_getState, then_ok]
  split
  · next hneeds =>
      have hnoted : w.Rewinds [] [] (w.note (.togglesResetting b)) :=
        (World.Rewinds.refl w).note rfl
      simp only [ensures_bind, ensures_record, then_ok, he]
      apply Ensures.mono (Bus.rewinds_resetToggles (w := w.note (.togglesResetting b)) hquiet
        hrelays hfree (some b) _ _ rfl)
      rintro r w' ⟨answer, rfl, hreset⟩
      have hrecovers : Recovers t (w.state.transferOf b) w w' :=
        ⟨fun h => absurd hneeds h, fun reached _ hreached => hreached ▸ hnoted.trans hreset⟩
      cases answer <;> exact ⟨_, rfl, hrecovers⟩
  · next hspared =>
      exact ⟨_, rfl, fun _ => .refl w, fun reached hneeds => absurd hneeds hspared⟩

theorem Delivers.suffix {r : Except Fault Unit} {handler : Handler}
    (h : Delivers hands b w r w') (hhandler : (w.state.batches.get b).handler = some handler) :
    (handedOver b handler w).history <:+ w'.history := by
  cases h with
  | nothing hnone => simp [hnone] at hhandler
  | handed hhandler' hmoves =>
      obtain rfl := Option.some.inj (hhandler.symm.trans hhandler')
      exact hmoves.suffix.trans (List.suffix_cons _ _)
  | failed hhandler' hmoves =>
      obtain rfl := Option.some.inj (hhandler.symm.trans hhandler')
      exact hmoves.suffix.trans ((List.suffix_cons _ _).trans (List.suffix_cons _ _))

/-- The toggles that a transfer makes necessary are reset, and its completion is handed over after
that. -/
def StartsHandler (t : Key Table) (b : Key Batch) (handler : Handler) (transfer : Transfer)
    (w w' : World) : Prop :=
  ∃ w₁, Recovers t transfer w w₁ ∧ w₁.state.transferOf b = transfer ∧
    (handedOver b handler w₁).history <:+ w'.history

/-- A batch that finishes starts its handler when the toggles are reset, whatever happens then. -/
theorem ensures_finish_of_relays (hplay : play.Fair) (hquiet : Bus.Quiet play)
    (hw : w.Ready hands) (hloose : w.Loose b) (hb : hands.MayEnd b)
    (he : (w.state.batches.get b).endpoint = some e)
    (hrelays : Bus.Relays w.state (w.state.busOf e) t) {handler : Handler}
    (hhandler : (w.state.batches.get b).handler = some handler) :
    Ensures (finish play b) w fun _ w' =>
      StartsHandler t b handler (w.state.transferOf b) w w' := by
  have hreset := recovers_resetToggles (w := w.note (.finishing b)) hquiet (hw.sound.tablesFree t)
    he hrelays
  have hcourse : Ensures (finish play b) w (Course play hands b fun _ w₂ =>
      StartsHandler t b handler (w.state.transferOf b) w w₂ ∧
        Moves hands [] [] w w₂ ∧ w₂.Loose b) := by
    refine ensures_finish_of_reset hplay hw hloose hb hreset ?_ ?_
    · rintro fault w₁ ⟨_, ⟨⟩, _⟩
    · rintro outcome w₁ r w₂ ⟨_, _, hnoted⟩ hreset hdeliver hmoves hloose₂
      have hsame := (hreset.aside (hloose.note _)).1
      have hrecovers : Recovers t (w.state.transferOf b) w (afterReset b w₁ outcome) := by
        cases outcome with
        | ok _ => exact hnoted.of_noted rfl
        | error error => exact (hnoted.of_noted rfl).note rfl
      have hkept : (afterReset b w₁ outcome).state.batches.get b = w.state.batches.get b := by
        cases outcome <;> exact hsame
      have hhandler₁ : ((afterReset b w₁ outcome).state.batches.get b).handler = some handler := by
        rw [hkept]
        exact hhandler
      exact ⟨⟨_, hrecovers, congrArg Batch.transfer hkept, hdeliver.suffix hhandler₁⟩,
        hmoves, hloose₂⟩
  apply Ensures.mono hcourse
  intro r w' h
  obtain ⟨r₁, w₂, ⟨⟨w₁, hrecovers, htransfer, hsuffix⟩, -, -⟩, hlater⟩ :=
    h.after hw hb fun _ _ h => h.2
  exact ⟨w₁, hrecovers, htransfer, hsuffix.trans hlater.suffix⟩

/-- A batch that is aborted finishes as one that failed. -/
theorem ensures_ending_of_relays (hplay : play.Fair) (hquiet : Bus.Quiet play)
    (hw : w.Ready hands) (hloose : w.Loose b) (hb : hands.MayEnd b)
    (he : (w.state.batches.get b).endpoint = some e)
    (hrelays : Bus.Relays w.state (w.state.busOf e) t) {handler : Handler}
    (hhandler : (w.state.batches.get b).handler = some handler) {ending : Ending}
    (hfinishes : ending.Finishes) :
    Ensures (ending.run play b) w fun _ w' =>
      StartsHandler t b handler (ending.final (w.state.transferOf b)) w w' := by
  cases ending with
  | destroy | drop => exact hfinishes.elim
  | finish => exact ensures_finish_of_relays hplay hquiet hw hloose hb he hrelays hhandler
  | abort =>
      obtain ⟨cancelled, hcancelled⟩ : ∃ cancelled, cancelled =
        w.alter (·.setTransfer b (w.state.transferOf b).cancel) := ⟨_, rfl⟩
      have hcancel : Moves hands [] [] w cancelled :=
        hcancelled ▸ .edit hb.mayTouch (.cancel _)
      have hbatch : cancelled.state.batches.get b =
          { w.state.batches.get b with transfer := (w.state.transferOf b).cancel } :=
        hcancelled ▸ batch_cancelled hloose
      have hloose' : cancelled.Loose b := hcancelled ▸ loose_cancelled hloose
      have hrelays' : Bus.Relays cancelled.state (cancelled.state.busOf e) t := hcancelled ▸ hrelays
      have htransfer : cancelled.state.transferOf b = (w.state.transferOf b).cancel :=
        congrArg Batch.transfer hbatch
      simp only [Ending.run, abort, ensures_bind, ensures_modifyTransfer, then_ok]
      rw [← hcancelled]
      apply Ensures.mono (ensures_finish_of_relays hplay hquiet (hcancel.ready hw) hloose' hb
        (by rw [hbatch]; exact he) hrelays' (by rw [hbatch]; exact hhandler))
      rw [htransfer]
      rintro r w' ⟨w₁, hrecovers, hsame, hsuffix⟩
      have hbefore : w.Rewinds [] [] cancelled := hcancelled ▸ (World.Rewinds.refl w).alter rfl
      refine ⟨w₁, ⟨fun hspared => hbefore.trans (hrecovers.spared hspared), ?_⟩, hsame, hsuffix⟩
      intro reached hneeds hreached
      exact hbefore.trans (hrecovers.reset reached hneeds (hcancelled ▸ hreached))

end Batch

namespace Session

theorem quiet_player (limit : Nat) : Bus.Quiet (player limit) := by
  intro w
  cases limit with
  | zero => exact ⟨rfl, (World.Rewinds.refl w).note rfl⟩
  | succ limit => exact ⟨rfl, .refl w⟩

/-- What became of the toggles when the transfer of a batch on an installed endpoint is over, and
what was counted as reset on the way. -/
structure TogglesRecovered (t : Key Table) (e : Key Endpoint) (transfer : Transfer) (s s' : State)
    (counts : List Nat) : Prop where
  spared : transfer.status = .ok ∨ transfer.scope = .nothing →
    (∀ x, s'.toggleOf x = s.toggleOf x) ∧ counts = []
  /-- Another endpoint keeps its toggle also if it is the other half of the same number. -/
  endpoint : transfer.status ≠ .ok → transfer.scope = .endpoint →
    s'.toggleOf e = false ∧ (∀ x, x ≠ e → s'.toggleOf x = s.toggleOf x) ∧ counts = [1]
  device : transfer.status ≠ .ok → transfer.scope = .device →
    (∀ x ∈ (s.tables.get t).slots.values, (s.targetOf x).address = (s.targetOf e).address →
      s'.toggleOf x = false) ∧
    ∀ x, ¬ (x ∈ (s.tables.get t).slots.values ∧
      (s.targetOf x).address = (s.targetOf e).address) → s'.toggleOf x = s.toggleOf x

/-- The counts of the resets that buses left to their tables, the earliest first. -/
def resetCounts (part : List Moment) : List Nat :=
  part.reverse.filterMap fun m => m.occurrence.resetCount?

variable {b : Key Batch} {e : Key Endpoint} {t : Key Table} {handler : Handler}

theorem resetCounts_of_rewinds {es : List (Key Endpoint)} {counts : List Nat} {w w' : World}
    (h : w.Rewinds es counts w') :
    ∃ since, w'.history = since ++ w.history ∧ resetCounts since = counts := by
  obtain ⟨all, ⟨since, hsince, rfl⟩, hcounts⟩ := h.counted
  exact ⟨since, hsince, by rwa [List.filterMap_map] at hcounts⟩

section Cases

variable {transfer : Transfer} {w w' : World}

theorem togglesRecovered_of_spared (hspared : ¬ transfer.NeedsReset) (h : w.Rewinds [] [] w') :
    ∃ since, w'.history = since ++ w.history ∧
      TogglesRecovered t e transfer w.state w'.state (resetCounts since) := by
  obtain ⟨since, hsince, hcounts⟩ := resetCounts_of_rewinds h
  refine ⟨since, hsince, ⟨fun _ => ⟨fun x => ?_, hcounts⟩, fun hfailed hscope => ?_,
    fun hfailed hscope => ?_⟩⟩
  · simp [h.toggles]
  · exact absurd ⟨hfailed, by simp [hscope]⟩ hspared
  · exact absurd ⟨hfailed, by simp [hscope]⟩ hspared

theorem togglesRecovered_of_endpoint (hfailed : transfer.status ≠ .ok)
    (hscope : transfer.scope = .endpoint) (h : w.Rewinds [e] [1] w') :
    ∃ since, w'.history = since ++ w.history ∧
      TogglesRecovered t e transfer w.state w'.state (resetCounts since) := by
  obtain ⟨since, hsince, hcounts⟩ := resetCounts_of_rewinds h
  refine ⟨since, hsince, ⟨?_, fun _ _ => ⟨?_, fun x hx => ?_, hcounts⟩, ?_⟩⟩
  · simp [hfailed, hscope]
  · simp [h.toggles]
  · simp [h.toggles, hx]
  · simp [hscope]

theorem togglesRecovered_of_device {reached : List (Key Endpoint)} {counts : List Nat}
    (hfailed : transfer.status ≠ .ok) (hscope : transfer.scope = .device)
    (hreached : ∀ x, x ∈ reached ↔ x ∈ (w.state.tables.get t).slots.values ∧
      (w.state.targetOf x).address = (w.state.targetOf e).address)
    (h : w.Rewinds reached counts w') :
    ∃ since, w'.history = since ++ w.history ∧
      TogglesRecovered t e transfer w.state w'.state (resetCounts since) := by
  obtain ⟨since, hsince, -⟩ := resetCounts_of_rewinds h
  refine ⟨since, hsince, ⟨?_, ?_, fun _ _ => ⟨fun x hx haddress => ?_, fun x hx => ?_⟩⟩⟩
  · simp [hfailed, hscope]
  · simp [hscope]
  · rw [h.toggles, if_pos ((hreached x).mpr ⟨hx, haddress⟩)]
  · rw [h.toggles, if_neg fun h => hx ((hreached x).mp h)]

theorem togglesRecovered_of_recovers
    (hexclusive : (w.state.tables.get t).Exclusive w.state.targetOf)
    (hinstalled : e ∈ (w.state.tables.get t).slots.values)
    (htarget : transfer.target = w.state.targetOf e) (h : Batch.Recovers t transfer w w') :
    ∃ since, w'.history = since ++ w.history ∧
      TogglesRecovered t e transfer w.state w'.state (resetCounts since) := by
  by_cases hneeds : transfer.NeedsReset
  · cases hscope : transfer.scope with
    | nothing => exact absurd hscope hneeds.2
    | endpoint =>
        refine togglesRecovered_of_endpoint hneeds.1 hscope (h.reset [e] hneeds ?_)
        rw [htarget, hscope]
        exact hexclusive.reached_endpoint hinstalled
    | device =>
        refine togglesRecovered_of_device hneeds.1 hscope (fun x => ?_) (h.reset _ hneeds rfl)
        rw [hscope, htarget]
        exact Table.mem_reached_device
  · exact togglesRecovered_of_spared hneeds (h.spared hneeds)

end Cases

/-- When the handler of a batch starts, the toggles are those from before, except for what a table
resets if the transfer failed or was cancelled: in the scope of one endpoint that endpoint alone,
which is also counted so, and in the scope of the device exactly what is installed of it. -/
theorem Reachable.toggles_recovered (h : Reachable w) (name : String)
    (hfind : w.state.directory.batches.find? name = some b)
    (he : (w.state.batches.get b).endpoint = some e)
    (hinstalled : e ∈ (w.state.tables.get t).slots.values)
    (hrelays : Bus.Relays w.state (w.state.busOf e) t)
    (hhandler : (w.state.batches.get b).handler = some handler) (limit : Nat)
    (ending : Batch.Ending) (hfinishes : ending.Finishes) :
    Ensures (endBatch name fun b => ending.run (player limit) b) w fun _ w' =>
      ∃ s since, ⟨.handlerInvoked b handler.serial handler.name?
          (ending.final (w.state.transferOf b)).completion, s⟩ :: (since ++ w.history) <:+
            w'.history ∧
        TogglesRecovered t e (ending.final (w.state.transferOf b)) w.state s
          (resetCounts since) := by
  obtain ⟨hunname, hown⟩ := h.own_unnamed hfind
  have hready := hunname.ready h.ready
  have htarget : (ending.final (w.state.transferOf b)).target = w.state.targetOf e := by
    have hdescribed := congrArg Descriptor.target (h.ready.sound.described b e he)
    cases ending <;> exact hdescribed
  rw [ensures_endBatch hfind]
  apply Ensures.mono (Batch.ensures_ending_of_relays (w := w.unname name) (player_fair limit)
    (quiet_player limit) hready hown.loose hown.mayEnd he hrelays hhandler hfinishes)
  rintro r w' ⟨w₁, hrecovers, htransfer, hstarted⟩
  obtain ⟨since, hsince, htoggles⟩ := togglesRecovered_of_recovers (w := w.unname name)
    (h.changes.tabled.exclusive t) hinstalled htarget hrecovers
  rw [Batch.handedOver, World.note_history, World.alter_history, htransfer, hsince] at hstarted
  exact ⟨_, since, hstarted, htoggles.spared, htoggles.endpoint, htoggles.device⟩

/-- A transfer stalls, and the other half of its endpoint's number keeps the toggle. -/
theorem toggles_recovered_half :
    ∃ (w : World) (handler : Handler) (s : State) (since : List Moment), Reachable w ∧
      ⟨.handlerInvoked ⟨0⟩ handler.serial handler.name? (w.state.transferOf ⟨0⟩).completion, s⟩ ::
          (since ++ w.history) <:+
        ((endBatch "transfer" fun b => Batch.Ending.finish.run (player 1) b).worldAfter w).history ∧
      w.state.toggleOf ⟨0⟩ = true ∧ w.state.toggleOf ⟨1⟩ = true ∧
      s.toggleOf ⟨0⟩ = false ∧ s.toggleOf ⟨1⟩ = true ∧ resetCounts since = [1] := by
  obtain ⟨w, hw⟩ : ∃ w, w = after 1
      [.addBus "hub" { BusPlan.bare Script with
          toggleReset := ⟨[⟨none, ⟨some "table", .done⟩⟩]⟩ },
        .addTable "table",
        .addEndpoint "hub" ⟨⟨1, 2, .inbound⟩, .bulk, 64⟩ "in", .newBatch "in" "transfer",
        .setToggle "in" true, .register "table" "in",
        .addEndpoint "hub" ⟨⟨1, 2, .outbound⟩, .bulk, 64⟩ "out",
        .setToggle "out" true, .register "table" "out",
        .onComplete "transfer" ⟨"done", none, none, [], false⟩,
        .complete "transfer" (.failed .stall) 0] := ⟨_, rfl⟩
  have hreachable : Reachable w := hw ▸ .idle (idle_after 1 _)
  have hsome : (w.state.batches.get ⟨0⟩).handler.isSome := by
    rw [hw]
    decide
  obtain ⟨handler, hhandler⟩ := Option.isSome_iff_exists.mp hsome
  have hrelays : Bus.Relays w.state (w.state.busOf ⟨0⟩) ⟨0⟩ := by
    rw [hw]
    exact ⟨_, rfl, rfl, by decide⟩
  have hrecovered := hreachable.toggles_recovered "transfer" (b := ⟨0⟩) (e := ⟨0⟩) (t := ⟨0⟩)
    (by rw [hw]; decide) (by rw [hw]; decide) (by rw [hw]; decide) hrelays hhandler 1 .finish
    trivial
  obtain ⟨s, since, hstarted, htoggles⟩ := hrecovered.worldAfter
  obtain ⟨hreset, hkept, hcounts⟩ := htoggles.endpoint (by rw [hw]; decide) (by rw [hw]; decide)
  have hset : w.state.toggleOf ⟨0⟩ = true ∧ w.state.toggleOf ⟨1⟩ = true := by
    rw [hw]
    decide
  exact ⟨w, handler, s, since, hreachable, hstarted, hset.1, hset.2, hreset,
    (hkept ⟨1⟩ (by decide)).trans hset.2, hcounts⟩

end Session

end UsbTransfer
