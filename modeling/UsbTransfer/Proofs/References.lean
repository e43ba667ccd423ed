import UsbTransfer.Proofs.LifecycleSteps.Sessions
import UsbTransfer.Proofs.Exclusion

/-!
# References on endpoints

In every world in which user code can find itself, an endpoint counts exactly its owners.  It goes
away with the last of them, its bus is told of that once and at once, and nobody comes to own a
reference on it again.
-/

namespace UsbTransfer

open Run

namespace State

/-- An endpoint came into being and has no reference left. -/
def Gone (s : State) (e : Key Endpoint) : Prop :=
  e.index < s.endpoints.size ∧ (s.endpoints.get e).references = 0

instance (s : State) (e : Key Endpoint) : Decidable (s.Gone e) :=
  inferInstanceAs (Decidable (_ ∧ _))

theorem gone_of_endpoints_eq {s s' : State} (h : s'.endpoints = s.endpoints) (e : Key Endpoint) :
    s'.Gone e ↔ s.Gone e := by
  rw [Gone, Gone, h]

end State

namespace View

@[simp]
theorem endpoints_of (v : View) (s : State) : (v.of s).endpoints = s.endpoints := by
  cases v <;> rfl

/-- Locks own no references. -/
theorem counted_of (v : View) {s : State} (hs : s.Counted) : (v.of s).Counted := by
  intro e
  rw [endpoints_of, hs e]
  cases v with
  | unlocked | queue => rfl
  | table t =>
      have htables : (s.tables.modify t fun table => { table with lock := .held }).total
          (fun table => table.slots.values.count e) =
            s.tables.total fun table => table.slots.values.count e :=
        s.tables.total_modify_of_eq t _ _ fun _ => rfl
      simp only [State.handlesOn, State.ownedByTables, View.of, htables]
      rfl

end View

/-- The occurrence is the news that no reference on the endpoint is left. -/
def Occurrence.farewellTo (e : Key Endpoint) : Occurrence → Bool
  | .endpointFarewell _ e' => e' = e
  | _ => false

variable {hands : Hands} {w w' : World}

/-- What a change does to the references on an endpoint: nothing, unless it brings the endpoint
into being, leaves some of several references, or takes the only one and tells the bus. -/
theorem Change.references (h : Change hands w w') (e : Key Endpoint) :
    (w'.state.Gone e ↔ w.state.Gone e) ∧
        w'.tally (Occurrence.farewellTo e) = w.tally (Occurrence.farewellTo e) ∨
      ¬ w.state.Gone e ∧ w'.state.Gone e ∧
        w'.tally (Occurrence.farewellTo e) = w.tally (Occurrence.farewellTo e) + 1 := by
  have hmodified : ∀ (x : Key Endpoint) (f : Endpoint → Endpoint),
      ((f (w.state.endpoints.get x)).references = 0 ↔ (w.state.endpoints.get x).references = 0) →
        ({ w.state with endpoints := w.state.endpoints.modify x f }.Gone e ↔ w.state.Gone e) := by
    intro x f hf
    simp only [State.Gone, Arena.size_modify]
    refine and_congr_right fun hsize => ?_
    by_cases hx : e = x
    · subst hx
      rw [Arena.get_modify_self _ _ _ hsize]
      exact hf
    · rw [Arena.get_modify_of_ne _ _ hx]
  cases h with
  | consult | addBus | addTable | addQueue | rename | leaveWaker | edit | detachHandler
  | detachData | changeData | keepHandle | takeHandle | lend | unlend | nameBatch
  | unnameBatch => exact .inl ⟨State.gone_of_endpoints_eq rfl e, rfl⟩
  | uninstall hslot =>
      obtain ⟨_, -, rfl⟩ := State.uninstall?_eq_some hslot
      exact .inl ⟨State.gone_of_endpoints_eq rfl e, rfl⟩
  | install | giveUpTable | push | handOut | wake | build | giveUpEndpoint | handOver
  | attachHandler | attachData =>
      exact .inl ⟨State.gone_of_endpoints_eq rfl e, by simp [Occurrence.farewellTo]⟩
  | @note o v hfits =>
      have hother : o.farewellTo e = false := by
        cases o <;> first | rfl | exact hfits.elim
      exact .inl ⟨State.gone_of_endpoints_eq rfl e, by simp [hother]⟩
  | setToggle x value =>
      exact .inl ⟨hmodified x _ Iff.rfl, by simp [Occurrence.farewellTo]⟩
  | advanceToggle x =>
      exact .inl ⟨hmodified x _ Iff.rfl, by simp [Occurrence.farewellTo]⟩
  | acquire v hreferences =>
      refine .inl ⟨hmodified _ _ ?_, by simp [Occurrence.farewellTo]⟩
      simp only
      omega
  | release hspare hreferences =>
      refine .inl ⟨hmodified _ _ ?_, by simp [Occurrence.farewellTo]⟩
      simp only
      omega
  | createEndpoint =>
      refine .inl ⟨?_, by simp [Occurrence.farewellTo]⟩
      simp only [World.note_state, World.alter_state, State.addEndpoint, State.Gone,
        Arena.size_push, Arena.get_push]
      split
      · next hnew =>
          subst hnew
          exact ⟨fun h => absurd h.2 Nat.one_ne_zero, fun h => absurd h.1 (Nat.lt_irrefl _)⟩
      · next hold =>
          refine and_congr_left fun _ => ?_
          have hne : e.index ≠ w.state.endpoints.size := fun heq => hold (Key.ext heq)
          omega
  | @releaseLast x plan hspare hreferences hplan =>
      have hsize : x.index < w.state.endpoints.size :=
        State.index_lt_of_references_pos (by omega)
      by_cases hx : e = x
      · subst hx
        refine .inr ⟨fun hgone => by have := hgone.2; omega, ⟨?_, ?_⟩, ?_⟩
        · simpa [State.setPlan, State.loseReference] using hsize
        · simp only [World.note_state, World.alter_state, State.setPlan, State.loseReference]
          rw [Arena.get_modify_self _ _ _ hsize, hreferences]
        · simp [Occurrence.farewellTo]
      · have hne : x ≠ e := fun h => hx h.symm
        refine .inl ⟨?_, by simp [Occurrence.farewellTo, hne]⟩
        simp only [World.note_state, World.alter_state, State.setPlan, State.loseReference,
          State.Gone, Arena.size_modify]
        rw [Arena.get_modify_of_ne _ _ hx]

/-- What is recorded with a change shows the endpoints as they are after it, and in each such
state an endpoint counts its owners. -/
theorem Change.since (h : Change hands w w') (hw : w.state.Sound) :
    ∃ since : List Moment, w'.history = since ++ w.history ∧ ∀ m ∈ since,
      m.state.endpoints = w'.state.endpoints ∧ m.state.Counted ∧
        ∀ bus e, m.occurrence = .endpointFarewell bus e →
          bus = m.state.busOf e ∧ m.state.Gone e := by
  have hcounted := (h.sound hw).counted
  cases h with
  | consult | addBus | addTable | addQueue | rename | leaveWaker | edit | detachHandler
  | detachData | changeData | keepHandle | takeHandle | lend | unlend | nameBatch
  | unnameBatch | uninstall => exact ⟨[], rfl, by simp⟩
  | createEndpoint | release | advanceToggle | wake | build | giveUpEndpoint | handOver
  | attachHandler | attachData =>
      refine ⟨[_], rfl, ?_⟩
      simp only [List.mem_singleton, forall_eq]
      exact ⟨rfl, hcounted, by simp⟩
  | acquire v | setToggle _ _ v | push | handOut =>
      refine ⟨[_], rfl, ?_⟩
      simp only [List.mem_singleton, forall_eq]
      exact ⟨View.endpoints_of _ _, View.counted_of _ hcounted, by simp⟩
  | install =>
      refine ⟨[_], rfl, ?_⟩
      simp only [List.mem_singleton, forall_eq]
      exact ⟨View.endpoints_of _ _, View.counted_of _ hw.counted, by simp⟩
  | giveUpTable =>
      refine ⟨[_], rfl, ?_⟩
      simp only [List.mem_singleton, forall_eq]
      exact ⟨rfl, hw.counted, by simp⟩
  | note v hfits =>
      refine ⟨[_], rfl, ?_⟩
      simp only [List.mem_singleton, forall_eq]
      refine ⟨View.endpoints_of _ _, View.counted_of _ hcounted, fun bus e h => ?_⟩
      subst h
      exact hfits.elim
  | @releaseLast x plan hspare hreferences hplan =>
      have hsize : x.index < w.state.endpoints.size :=
        State.index_lt_of_references_pos (by omega)
      refine ⟨[_, _], rfl, ?_⟩
      simp only [List.mem_cons, List.not_mem_nil, or_false, forall_eq_or_imp, forall_eq]
      refine ⟨⟨rfl, hcounted, ?_⟩, rfl, (hw.loseReference hspare).counted, by simp⟩
      rintro bus e ⟨⟩
      refine ⟨?_, ?_, ?_⟩
      · exact (w.state.endpoints.apply_get_modify x x
          (fun x => { x with references := x.references - 1 }) Endpoint.bus fun _ => rfl).symm
      · simpa [State.setPlan, State.loseReference] using hsize
      · simp only [World.note_state, World.alter_state, State.setPlan, State.loseReference]
        rw [Arena.get_modify_self _ _ _ hsize, hreferences]

/-- What the history tells of the references on endpoints. -/
structure World.Remembers (w : World) : Prop where
  /-- At every moment endpoints count their owners. -/
  counted : ∀ m ∈ w.history, m.state.Counted
  /-- What is gone stays so. -/
  lasting : ∀ m ∈ w.history, ∀ e, m.state.Gone e → w.state.Gone e
  ordered : w.history.Pairwise fun newer older => ∀ e, older.state.Gone e → newer.state.Gone e
  /-- The right bus is told when an endpoint is gone. -/
  told : ∀ m ∈ w.history, ∀ bus e, m.occurrence = .endpointFarewell bus e →
    bus = m.state.busOf e ∧ m.state.Gone e
  once : ∀ e, w.tally (Occurrence.farewellTo e) = if w.state.Gone e then 1 else 0

theorem remembers_empty : World.empty.Remembers where
  counted := by simp [World.empty]
  lasting := by simp [World.empty]
  ordered := List.Pairwise.nil
  told := by simp [World.empty]
  once := by
    intro e
    simp [World.tally, World.empty, State.Gone, State.empty, Arena.empty, Arena.size]

theorem Change.remembers (h : Change hands w w') (hw : w.state.Sound) (hremembers : w.Remembers) :
    w'.Remembers := by
  obtain ⟨since, hsince, hmoments⟩ := h.since hw
  have hstays : ∀ e, w.state.Gone e → w'.state.Gone e := by
    intro e hgone
    rcases h.references e with ⟨hiff, -⟩ | ⟨-, hgone', -⟩
    · exact hiff.mpr hgone
    · exact hgone'
  have hnow : ∀ m ∈ since, ∀ e, m.state.Gone e ↔ w'.state.Gone e :=
    fun m hm e => State.gone_of_endpoints_eq (hmoments m hm).1 e
  refine ⟨?_, ?_, ?_, ?_, ?_⟩
  · intro m hm
    rcases List.mem_append.mp (hsince ▸ hm) with hm | hm
    · exact (hmoments m hm).2.1
    · exact hremembers.counted m hm
  · intro m hm e hgone
    rcases List.mem_append.mp (hsince ▸ hm) with hm | hm
    · exact (hnow m hm e).mp hgone
    · exact hstays e (hremembers.lasting m hm e hgone)
  · rw [hsince, List.pairwise_append]
    refine ⟨?_, hremembers.ordered, ?_⟩
    · refine List.pairwise_of_forall_mem_list fun newer hnewer older holder e hgone => ?_
      exact (hnow newer hnewer e).mpr ((hnow older holder e).mp hgone)
    · intro newer hnewer older holder e hgone
      exact (hnow newer hnewer e).mpr (hstays e (hremembers.lasting older holder e hgone))
  · intro m hm bus e hfarewell
    rcases List.mem_append.mp (hsince ▸ hm) with hm | hm
    · exact (hmoments m hm).2.2 bus e hfarewell
    · exact hremembers.told m hm bus e hfarewell
  · intro e
    rcases h.references e with ⟨hiff, htally⟩ | ⟨hbefore, hafter, htally⟩
    · rw [htally, hremembers.once e]
      simp only [hiff]
    · rw [htally, hremembers.once e, if_neg hbefore, if_pos hafter]

theorem Changes.remembers (h : Changes Hands.empty World.empty w) : w.Remembers :=
  Changes.kept (fun _ _ => Change.remembers) h State.sound_empty remembers_empty

namespace Session

/-- Whatever user code does, it leaves operations in progress the references that they hold. -/
theorem Reachable.spare_player (h : Reachable w) (limit : Nat) (script : Script)
    (e : Key Endpoint) :
    ((player limit none script).worldAfter w).state.spare e = w.state.spare e := by
  refine Ensures.worldAfter (P := fun w' => w'.state.spare e = w.state.spare e) ?_
  apply Ensures.mono ((player_fair limit).run_none h.ready (some script))
  intro r w' hr
  have hspare := hr.moves.spare e
  simpa only [List.count_nil, Nat.add_zero] using hspare

/-- Between commands a batch that lost its name, or the end of which was recorded, owns nothing. -/
theorem Idle.owns_nothing (h : Idle w) {b : Key Batch} (hb : b.index < w.state.batches.size)
    (hgone : b ∉ w.state.directory.batches.values ∨
      ∃ m ∈ w.history, m.occurrence = .batchEnded b) :
    (w.state.batches.get b).endpoint = none ∧ (w.state.batches.get b).handler = none ∧
      (w.state.batches.get b).data = none := by
  have hunnamed : b ∉ w.state.directory.batches.values := by
    rcases hgone with hunnamed | ⟨m, hm, ho⟩
    · exact hunnamed
    · intro hnamed
      have hlive := (Reachable.idle h).ready.sound.batchesLive b hnamed
      simp [(Reachable.idle h).documented.ended m hm b ho] at hlive
  have hended := h.ended ⟨hb, hunnamed⟩
  exact ⟨hended.endpoint, hended.handler, hended.data⟩

/-- At every moment, and in every world in which user code can find itself, an endpoint counts its
owners: named handles, tables, batches, handlers, attached values and operations in progress.  When
the last of them is gone its bus is told, once, and none comes after that.  A table that was given
up owns nothing, and neither does a batch that ended, once the command is over.  Between commands no
operation holds anything, and amid a command user code leaves those in progress what they hold. -/
theorem Reachable.references_accounted (h : Reachable w) :
    (∀ e, (w.state.endpoints.get e).references = w.state.handlesOn e) ∧
    (∀ m ∈ w.history, ∀ e, (m.state.endpoints.get e).references = m.state.handlesOn e) ∧
    (∀ e, e.index < w.state.endpoints.size →
      w.tally (Occurrence.farewellTo e) = if w.state.handlesOn e = 0 then 1 else 0) ∧
    (∀ later m earlier bus e, w.history = later ++ m :: earlier →
      m.occurrence = .endpointFarewell bus e →
        bus = m.state.busOf e ∧ (m.state.endpoints.get e).references = 0 ∧
          (∀ m' ∈ m :: later, m'.state.handlesOn e = 0) ∧ w.state.handlesOn e = 0) ∧
    (∀ t, (∃ m ∈ w.history, m.occurrence = .tableGivenUp t) →
      (w.state.tables.get t).slots.values = []) ∧
    (Idle w → w.state.inFlight = [] ∧
      ∀ b : Key Batch, b.index < w.state.batches.size →
        (b ∉ w.state.directory.batches.values ∨
          ∃ m ∈ w.history, m.occurrence = .batchEnded b) →
            (w.state.batches.get b).endpoint = none ∧ (w.state.batches.get b).handler = none ∧
              (w.state.batches.get b).data = none) ∧
    ∀ limit script e,
      ((player limit none script).worldAfter w).state.spare e = w.state.spare e := by
  have hremembers := h.changes.remembers
  have hcounted := h.ready.sound.counted
  refine ⟨hcounted, hremembers.counted, fun e he => ?_, ?_, ?_,
    fun hidle => ⟨hidle.inFlight_eq_nil, fun b hb hgone => hidle.owns_nothing hb hgone⟩,
    fun limit script e => h.spare_player limit script e⟩
  · rw [hremembers.once e]
    simp only [State.Gone, he, true_and, hcounted e]
  · intro later m earlier bus e hhistory hfarewell
    have hm : m ∈ w.history := hhistory ▸ List.mem_append_right later List.mem_cons_self
    obtain ⟨hbus, hgone⟩ := hremembers.told m hm bus e hfarewell
    refine ⟨hbus, hgone.2, fun m' hm' => ?_, ?_⟩
    · have hgone' : m'.state.Gone e := by
        rcases List.mem_cons.mp hm' with rfl | hm'
        · exact hgone
        · have hordered := hremembers.ordered
          rw [hhistory, List.pairwise_append] at hordered
          exact hordered.2.2 m' hm' m List.mem_cons_self e hgone
      have hmem : m' ∈ w.history := by
        rw [hhistory]
        rcases List.mem_cons.mp hm' with rfl | hm'
        · exact List.mem_append_right later List.mem_cons_self
        · exact List.mem_append_left _ hm'
      exact (hremembers.counted m' hmem e).symm.trans hgone'.2
    · exact (hcounted e).symm.trans (hremembers.lasting m hm e hgone).2
  · rintro t ⟨m, hm, ho⟩
    exact (h.changes.abandons m hm t ho).2.2

/-- A batch holds the last reference on an endpoint whose bus gives up when it is told. -/
theorem references_accounted_after_fault :
    (after 1
      [.addBus "hub" { BusPlan.bare Script with
          endpointDestroy := ⟨[⟨some [.raise "gone"], .done⟩]⟩ },
        .addEndpoint "hub" default "pipe", .newBatch "pipe" "transfer", .releaseHandle "pipe",
        .finish "transfer"]).tally (Occurrence.farewellTo ⟨0⟩) = 1 :=
  ((Reachable.idle (idle_after 1 _)).references_accounted.2.2.1 ⟨0⟩ (by decide)).trans
    (if_pos (by decide))

end Session

end UsbTransfer
