import UsbTransfer.Proofs.LifecycleSteps.Records
import UsbTransfer.Proofs.References

/-!
# The homes of batches

A batch is built on one endpoint, which need not be the one that it was asked for on, and that
endpoint stays its home.  The batch describes it, and whatever the batch asks for, it asks the bus
of its home: when toggles are to be reset, and when it goes away, even if its home went with it.
-/

namespace UsbTransfer

open Run

variable {hands : Hands} {w w' : World} {b : Key Batch} {e : Key Endpoint}

/-- The batch that an occurrence finds on its endpoint. -/
def Occurrence.placed? : Occurrence → Option (Key Batch)
  | .resetRequested _ asker _ _ => asker
  | .endpointGivenUp b _ => some b
  | _ => none

/-- A batch was built on the endpoint and describes it.  It asked for resets at no other bus and for
no other target, and it gives up no other endpoint. -/
structure World.Home (w : World) (b : Key Batch) (e : Key Endpoint) : Prop where
  batch : b.index < w.state.batches.size
  exist : e.index < w.state.endpoints.size
  endpoint : (w.state.batches.get b).endpoint = some e ∨ (w.state.batches.get b).endpoint = none
  descriptor : (w.state.transferOf b).descriptor = (w.state.endpoints.get e).descriptor
  resets : ∀ m ∈ w.history, ∀ bus target scope,
    m.occurrence = .resetRequested bus (some b) target scope →
      bus = w.state.busOf e ∧ target = w.state.targetOf e
  left : ∀ m ∈ w.history, ∀ x, m.occurrence = .endpointGivenUp b x →
    x = e ∧ m.state.busOf e = w.state.busOf e

/-- A batch as it is built on an endpoint: it has its defaults, and one reference on that endpoint
is all that it owns. -/
def Batch.fresh (s : State) (e : Key Endpoint) : Batch :=
  ⟨.ofDescriptor (s.endpoints.get e).descriptor, some e, none, none⟩

/-- At this moment a batch was built on the endpoint, as a fresh one, and it is still described as
it was then, and at home where it was. -/
structure World.Settled (w : World) (m : Moment) (b : Key Batch) (e : Key Endpoint) : Prop where
  fresh : m.state.batches.get b = .fresh m.state e
  descriptor : (w.state.transferOf b).descriptor = (m.state.transferOf b).descriptor
  bus : w.state.busOf e = m.state.busOf e
  home : w.Home b e

/-- All batches were built, and are at home where they were built. -/
structure World.Homes (w : World) : Prop where
  known : ∀ m ∈ w.history, ∀ b, m.occurrence.placed? = some b → b.index < w.state.batches.size
  built : ∀ b : Key Batch, b.index < w.state.batches.size →
    ∃ m ∈ w.history, ∃ e, m.occurrence = .batchBuilt b e
  settled : ∀ m ∈ w.history, ∀ b e, m.occurrence = .batchBuilt b e → w.Settled m b e

theorem homes_empty : World.empty.Homes where
  known := by simp [World.empty]
  built := fun _ hb => absurd hb (Nat.not_lt_zero _)
  settled := by simp [World.empty]

/-- A change leaves a batch on its endpoint or takes it away, and its description is kept. -/
theorem Change.placed (h : Change hands w w') (hb : b.index < w.state.batches.size) :
    ((w'.state.batches.get b).endpoint = (w.state.batches.get b).endpoint ∨
      (w'.state.batches.get b).endpoint = none) ∧
    (w'.state.transferOf b).descriptor = (w.state.transferOf b).descriptor := by
  have hmodified : ∀ (b' : Key Batch) (f : Batch → Batch),
      ((f (w.state.batches.get b')).endpoint = (w.state.batches.get b').endpoint ∨
        (f (w.state.batches.get b')).endpoint = none) →
      (f (w.state.batches.get b')).transfer.descriptor =
        (w.state.batches.get b').transfer.descriptor →
        (((w.state.batches.modify b' f).get b).endpoint = (w.state.batches.get b).endpoint ∨
          ((w.state.batches.modify b' f).get b).endpoint = none) ∧
        ((w.state.batches.modify b' f).get b).transfer.descriptor =
          (w.state.batches.get b).transfer.descriptor := by
    intro b' f hendpoint hdescriptor
    rw [Arena.get_modify]
    split
    · next heq =>
        rw [heq.1]
        exact ⟨hendpoint, hdescriptor⟩
    · exact ⟨.inl rfl, rfl⟩
  cases h with
  | uninstall hslot =>
      obtain ⟨_, -, rfl⟩ := State.uninstall?_eq_some hslot
      exact ⟨.inl rfl, rfl⟩
  | @build e =>
      have hsame := w.state.batches.get_push_of_lt (Batch.fresh w.state e) hb
      exact ⟨.inl (congrArg Batch.endpoint hsame),
        congrArg (fun batch => batch.transfer.descriptor) hsame⟩
  | giveUpEndpoint => exact hmodified _ _ (.inr rfl) rfl
  | edit _ hedit => exact hmodified _ _ (.inl rfl) hedit.descriptor_eq
  | handOver =>
      simp only [World.note_state, World.alter_state, State.setTransfer, State.detachHandler,
        State.transferOf, Arena.modify_modify]
      exact hmodified _ _ (.inl rfl) rfl
  | detachHandler | attachHandler | detachData | attachData | changeData =>
      exact hmodified _ _ (.inl rfl) rfl
  | _ => exact ⟨.inl rfl, rfl⟩

/-- What is recorded with a change about the endpoint of a batch is about the one that it has. -/
theorem Change.places (h : Change hands w w') :
    w.Adds (fun o => ∀ b, o.placed? = some b → ∃ e, (w.state.batches.get b).endpoint = some e ∧
      (o = .endpointGivenUp b e ∨
        ∃ scope, o = .resetRequested (w.state.busOf e) (some b) (w.state.transferOf b).target
          scope)) w' := by
  cases h with
  | consult | addBus | addTable | addQueue | rename | uninstall | leaveWaker | edit
  | detachHandler | detachData | changeData | keepHandle | takeHandle | lend | unlend
  | nameBatch | unnameBatch => exact ⟨[], rfl, by simp⟩
  | createEndpoint | acquire | release | setToggle | advanceToggle | install | giveUpTable
  | push | handOut | wake | build | handOver | attachHandler | attachData =>
      exact .cons rfl (by simp [Occurrence.placed?])
  | releaseLast => exact ⟨[_, _], rfl, by simp [Occurrence.placed?]⟩
  | giveUpEndpoint _ _ he =>
      refine .cons rfl fun b hb => ?_
      obtain rfl := Option.some.inj hb
      exact ⟨_, he, .inl rfl⟩
  | @note o v hfits =>
      refine .cons rfl fun b hb => ?_
      cases o with
      | resetRequested bus asker target scope =>
          obtain rfl : asker = some b := hb
          obtain ⟨e, he, rfl, -, rfl, -⟩ := hfits
          exact ⟨e, he, .inr ⟨scope, rfl⟩⟩
      | endpointGivenUp => exact hfits.elim
      | _ => cases hb

theorem Change.home (h : Change hands w w') (hw : w.state.Sound) (hhome : w.Home b e) :
    w'.Home b e := by
  obtain ⟨hendpoint, hdescriptor⟩ := h.placed hhome.batch
  have hbus := (h.endpoint_apply_eq hhome.exist Endpoint.bus fun _ _ _ => rfl).1
  have htarget := (h.targetOf_eq hhome.exist).1
  obtain ⟨since, hsince, hplaced⟩ := h.places
  have hmoments : ∀ m ∈ since, m.state.busOf e = w'.state.busOf e := by
    obtain ⟨since', hsince', hmoments⟩ := h.since hw
    obtain rfl := List.append_cancel_right (hsince.symm.trans hsince')
    exact fun m hm => congrArg (fun endpoints => (Arena.get endpoints e).bus) (hmoments m hm).1
  -- whatever the batch is recorded with now, it is on its home
  have hat : ∀ {x : Key Endpoint}, (w.state.batches.get b).endpoint = some x → x = e := by
    intro x hx
    rcases hhome.endpoint with he | hnone
    · exact Option.some.inj (hx.symm.trans he)
    · rw [hnone] at hx
      cases hx
  refine ⟨Nat.lt_of_lt_of_le hhome.batch h.size_le.1, (h.targetOf_eq hhome.exist).2, ?_, ?_, ?_, ?_⟩
  · rcases hendpoint with hsame | hnone
    · rw [hsame]
      exact hhome.endpoint
    · exact .inr hnone
  · rw [hdescriptor, hhome.descriptor]
    exact (h.endpoint_apply_eq hhome.exist Endpoint.descriptor fun _ _ _ => rfl).1.symm
  · intro m hm bus target scope ho
    rcases List.mem_append.mp (hsince ▸ hm) with hm | hm
    · obtain ⟨x, hx, hgivenUp | ⟨scope', hreset⟩⟩ := hplaced m hm b (by rw [ho]; rfl)
      · rw [ho] at hgivenUp
        cases hgivenUp
      · obtain rfl := hat hx
        rw [ho] at hreset
        obtain ⟨rfl, -, rfl, -⟩ := Occurrence.resetRequested.inj hreset
        refine ⟨hbus.symm, ?_⟩
        rw [htarget]
        exact congrArg Descriptor.target hhome.descriptor
    · obtain ⟨rfl, rfl⟩ := hhome.resets m hm bus target scope ho
      exact ⟨hbus.symm, htarget.symm⟩
  · intro m hm x ho
    rcases List.mem_append.mp (hsince ▸ hm) with hnew | hm
    · obtain ⟨y, hy, hgivenUp | ⟨scope', hreset⟩⟩ := hplaced m hnew b (by rw [ho]; rfl)
      · rw [ho] at hgivenUp
        obtain ⟨-, rfl⟩ := Occurrence.endpointGivenUp.inj hgivenUp
        exact ⟨hat hy, hmoments m hnew⟩
      · rw [ho] at hreset
        cases hreset
    · obtain ⟨hx, hsame⟩ := hhome.left m hm x ho
      exact ⟨hx, hsame.trans hbus.symm⟩

/-- Who comes into being is at home at once. -/
theorem home_built (hw : w.Homes) (he : e.index < w.state.endpoints.size) :
    ((w.alter (·.addBatch e)).note (.batchBuilt w.state.batches.nextKey e)).Home
      w.state.batches.nextKey e := by
  have hfresh : (w.state.addBatch e).batches.get w.state.batches.nextKey = .fresh w.state e :=
    (w.state.batches.get_push _ _).trans (if_pos rfl)
  have hnone : ∀ m ∈ ((w.alter (·.addBatch e)).note
      (.batchBuilt w.state.batches.nextKey e)).history,
        m.occurrence.placed? ≠ some w.state.batches.nextKey := by
    intro m hm hplaced
    rcases List.mem_cons.mp hm with rfl | hm
    · cases hplaced
    · exact Nat.lt_irrefl _ (hw.known m hm _ hplaced)
  refine ⟨by simp [State.addBatch, Arena.nextKey, Arena.size, Arena.push], he,
    .inl (congrArg Batch.endpoint hfresh), congrArg (·.transfer.descriptor) hfresh, ?_, ?_⟩
  · exact fun m hm bus target scope ho => absurd (by rw [ho]; rfl) (hnone m hm)
  · exact fun m hm x ho => absurd (by rw [ho]; rfl) (hnone m hm)

theorem Change.settled (h : Change hands w w') (hsound : w.state.Sound) {m : Moment}
    (hw : w.Settled m b e) :
    w'.Settled m b e where
  fresh := hw.fresh
  descriptor := (h.placed hw.home.batch).2.trans hw.descriptor
  bus := (h.endpoint_apply_eq hw.home.exist Endpoint.bus fun _ _ _ => rfl).1.trans hw.bus
  home := h.home hsound hw.home

theorem Change.homes (h : Change hands w w') (hsound : w.state.Sound) (hw : w.Homes) :
    w'.Homes := by
  have hkept : (∀ m ∈ w'.history, ∀ b e, m.occurrence = .batchBuilt b e → m ∈ w.history ∨
      w'.Settled m b e) →
      (∀ b : Key Batch, b.index < w'.state.batches.size → b.index < w.state.batches.size ∨
        ∃ m ∈ w'.history, ∃ e, m.occurrence = .batchBuilt b e) → w'.Homes := by
    intro hnew hsize
    obtain ⟨since, hsince, hplaced⟩ := h.places
    refine ⟨fun m hm b hb => Nat.lt_of_lt_of_le ?_ h.size_le.1, fun b hb => ?_,
      fun m hm b e ho => ?_⟩
    · rcases List.mem_append.mp (hsince ▸ hm) with hm | hm
      · obtain ⟨x, hx, -⟩ := hplaced m hm b hb
        exact State.index_lt_of_endpoint hx
      · exact hw.known m hm b hb
    · rcases hsize b hb with hold | hbuilt
      · obtain ⟨m, hm, hbuilt⟩ := hw.built b hold
        exact ⟨m, hsince ▸ List.mem_append_right _ hm, hbuilt⟩
      · exact hbuilt
    · rcases hnew m hm b e ho with hold | hnew
      · exact h.settled hsound (hw.settled m hold b e ho)
      · exact hnew
  -- all other changes build no batch
  have hother : w'.state.batches.size = w.state.batches.size →
      w.Adds (fun o => ∀ b e, o ≠ .batchBuilt b e) w' → w'.Homes := by
    rintro hsize ⟨since, hsince, hnone⟩
    refine hkept (fun m hm b e ho => ?_) fun b hb => .inl (hsize ▸ hb)
    rcases List.mem_append.mp (hsince ▸ hm) with hm | hm
    · exact absurd ho (hnone m hm b e)
    · exact .inl hm
  cases h with
  | @build e hspare =>
      have hhome := home_built hw (hsound.index_lt_of_spare hspare)
      have hfresh : (w.state.addBatch e).batches.get w.state.batches.nextKey =
          .fresh (w.state.addBatch e) e :=
        (w.state.batches.get_push _ _).trans (if_pos rfl)
      refine hkept (fun m hm b' e' ho => ?_) fun b hb => ?_
      · rcases List.mem_cons.mp hm with rfl | hm
        · obtain ⟨rfl, rfl⟩ := Occurrence.batchBuilt.inj ho
          exact .inr ⟨hfresh, rfl, rfl, hhome⟩
        · exact .inl hm
      · simp only [World.note_state, World.alter_state, State.addBatch, Arena.size_push] at hb
        rcases Nat.lt_or_eq_of_le (Nat.le_of_lt_succ hb) with hold | hlast
        · exact .inl hold
        · obtain rfl : b = w.state.batches.nextKey := Key.ext hlast
          exact .inr ⟨_, List.mem_cons_self, e, rfl⟩
  | note v hfits =>
      refine hother rfl (.cons rfl ?_)
      rintro b e rfl
      exact hfits.elim
  | uninstall hslot =>
      obtain ⟨_, -, rfl⟩ := State.uninstall?_eq_some hslot
      exact hother rfl ⟨[], rfl, by simp⟩
  | consult | addBus | addTable | addQueue | rename | leaveWaker | keepHandle | takeHandle | lend
  | unlend | nameBatch | unnameBatch => exact hother rfl ⟨[], rfl, by simp⟩
  | edit | detachHandler | detachData | changeData =>
      exact hother (Arena.size_modify _ _ _) ⟨[], rfl, by simp⟩
  | createEndpoint | acquire | release | setToggle | advanceToggle | install | giveUpTable
  | push | handOut | wake => exact hother rfl ⟨[_], rfl, by simp⟩
  | giveUpEndpoint | attachHandler | attachData =>
      exact hother (Arena.size_modify _ _ _) ⟨[_], rfl, by simp⟩
  | handOver =>
      refine hother ?_ ⟨[_], rfl, by simp⟩
      simp [State.setTransfer, State.detachHandler]
  | releaseLast => exact hother rfl ⟨[_, _], rfl, by simp⟩

theorem Changes.home (h : Changes hands w w') (hw : w.state.Sound) (hhome : w.Home b e) :
    w'.Home b e :=
  Changes.kept (fun _ _ => Change.home) h hw hhome

theorem Changes.homes (h : Changes Hands.empty World.empty w) : w.Homes :=
  Changes.kept (fun _ _ => Change.homes) h State.sound_empty homes_empty

/-- A batch that is on an endpoint was built there, and is at home there. -/
theorem World.Homes.settled_of_endpoint (h : w.Homes)
    (he : (w.state.batches.get b).endpoint = some e) :
    ∃ m ∈ w.history, m.occurrence = .batchBuilt b e ∧ w.Settled m b e := by
  obtain ⟨m, hm, x, ho⟩ := h.built b (State.index_lt_of_endpoint he)
  have hsettled := h.settled m hm b x ho
  rcases hsettled.home.endpoint with hx | hnone
  · obtain rfl := Option.some.inj (hx.symm.trans he)
    exact ⟨m, hm, ho, hsettled⟩
  · rw [hnone] at he
    cases he

/-! ## Farewells -/

/-- Buses are told only of batches that gave up an endpoint of theirs, and who gave up its endpoint
has none. -/
structure World.Farewells (w : World) : Prop where
  left : ∀ m ∈ w.history, ∀ bus b, m.occurrence = .batchFarewell bus b → w.Left b bus
  gone : ∀ m ∈ w.history, ∀ b e, m.occurrence = .endpointGivenUp b e →
    b.index < w.state.batches.size ∧ (w.state.batches.get b).endpoint = none

theorem LifecycleStep.farewells (h : LifecycleStep w w') (hw : w.Farewells) : w'.Farewells := by
  have hlater : ∀ {b bus}, w.Left b bus → w'.Left b bus :=
    fun ⟨m, hm, hgivenUp⟩ => ⟨m, h.suffix.subset hm, hgivenUp⟩
  have hstays : ∀ m ∈ w.history, ∀ b e, m.occurrence = .endpointGivenUp b e →
      b.index < w'.state.batches.size ∧ (w'.state.batches.get b).endpoint = none := by
    intro m hm b e ho
    obtain ⟨hsize, hnone⟩ := hw.gone m hm b e ho
    obtain ⟨hsize', hsame | hnone'⟩ := h.endpoint_cases hsize
    · exact ⟨hsize', hsame.trans hnone⟩
    · exact ⟨hsize', hnone'⟩
  have hcons : ∀ m : Moment, w'.history = m :: w.history →
      (∀ bus b, m.occurrence = .batchFarewell bus b → w.Left b bus) →
      (∀ b e, m.occurrence = .endpointGivenUp b e →
        b.index < w'.state.batches.size ∧ (w'.state.batches.get b).endpoint = none) →
        w'.Farewells := by
    intro m hhistory hleft hgone
    refine ⟨fun m' hm' bus b ho => hlater ?_, fun m' hm' b e ho => ?_⟩
    · rcases List.mem_cons.mp (hhistory ▸ hm') with rfl | hm'
      · exact hleft bus b ho
      · exact hw.left m' hm' bus b ho
    · rcases List.mem_cons.mp (hhistory ▸ hm') with rfl | hm'
      · exact hgone b e ho
      · exact hstays m' hm' b e ho
  cases h with
  | alter | name | shed => exact ⟨fun m hm bus b ho => hlater (hw.left m hm bus b ho), hstays⟩
  | note hmere =>
      refine hcons _ rfl ?_ ?_
      · rintro bus b rfl
        exact hmere.elim
      · rintro b e rfl
        exact hmere.elim
  | call hasked hleft =>
      refine hcons _ rfl ?_ ?_
      · rintro bus b rfl
        obtain rfl := Option.some.inj hasked
        exact hleft b rfl
      · rintro b e rfl
        cases hasked
  | giveUp he =>
      refine hcons _ rfl (by simp) fun b' e' ho => ?_
      obtain ⟨rfl, rfl⟩ := Occurrence.endpointGivenUp.inj ho
      have hsize := State.index_lt_of_endpoint he
      refine ⟨?_, congrArg Batch.endpoint (Arena.get_modify_self _ _ _ hsize)⟩
      simpa [State.detachEndpoint] using hsize
  | build | attach | invoke | perish | finish | install | uninstall | uninstallDevice
  | giveUpTable => exact hcons _ rfl (by simp) (by simp)

theorem LifecycleSteps.farewells (h : LifecycleSteps World.empty w) : w.Farewells :=
  kept_of_steps (fun _ _ => LifecycleStep.farewells) h
    ⟨by simp [World.empty], by simp [World.empty]⟩

/-- Only the bus of its home is told of a batch. -/
theorem World.Home.bus_of_farewell (h : w.Home b e) (hfarewells : w.Farewells) {m : Moment}
    (hm : m ∈ w.history) {bus : Key Bus} (ho : m.occurrence = .batchFarewell bus b) :
    bus = w.state.busOf e := by
  obtain ⟨m', hm', x, hgivenUp, rfl⟩ := hfarewells.left m hm bus b ho
  obtain ⟨rfl, hsame⟩ := h.left m' hm' x hgivenUp
  exact hsame

/-- No bus was told of a batch that is on its endpoint. -/
theorem World.Farewells.endpoint_none (h : w.Farewells) {m : Moment} (hm : m ∈ w.history)
    {bus : Key Bus} (ho : m.occurrence = .batchFarewell bus b) :
    (w.state.batches.get b).endpoint = none := by
  obtain ⟨m', hm', x, hgivenUp, -⟩ := h.left m hm bus b ho
  exact (h.gone m' hm' b x hgivenUp).2

end UsbTransfer
