import UsbTransfer.Proofs.Soundness

/-!
# What changes leave alone

A batch that is held by an operation in progress is the same whatever others do meanwhile, and
nothing that happens to others is about it.  A batch that was lent keeps its endpoint, and does
not end.  Neither gets a name.
-/

namespace UsbTransfer

namespace World

/-- A batch exists and has no name. -/
def Loose (w : World) (b : Key Batch) : Prop :=
  b.index < w.state.batches.size ∧ b ∉ w.state.directory.batches.values

theorem Loose.note {w : World} {b : Key Batch} (h : w.Loose b) (o : Occurrence) :
    (w.note o).Loose b :=
  h

/-- A change of the state alone that forgets no batch and names none keeps a batch loose. -/
theorem Loose.alter {w : World} {b : Key Batch} {f : State → State} (h : w.Loose b)
    (hsize : (f w.state).batches.size = w.state.batches.size)
    (hnamed : (f w.state).directory.batches = w.state.directory.batches) :
    (w.alter f).Loose b := by
  unfold Loose
  simp only [alter_state, hsize, hnamed]
  exact h

/-- All that was recorded between two worlds is of the given kind. -/
def Adds (P : Occurrence → Prop) (w w' : World) : Prop :=
  ∃ since : List Moment, w'.history = since ++ w.history ∧ ∀ m ∈ since, P m.occurrence

theorem Adds.refl (P : Occurrence → Prop) (w : World) : Adds P w w :=
  ⟨[], rfl, by simp⟩

theorem Adds.trans {P : Occurrence → Prop} {w w' w'' : World} (h : Adds P w w')
    (h' : Adds P w' w'') :
    Adds P w w'' := by
  obtain ⟨since, hsince, hP⟩ := h
  obtain ⟨since', hsince', hP'⟩ := h'
  refine ⟨since' ++ since, ?_, ?_⟩
  · rw [hsince', hsince, List.append_assoc]
  · intro m hm
    rcases List.mem_append.mp hm with hm | hm
    · exact hP' m hm
    · exact hP m hm

theorem Adds.mono {P R : Occurrence → Prop} {w w' : World} (h : Adds P w w')
    (hPR : ∀ o, P o → R o) :
    Adds R w w' := by
  obtain ⟨since, hsince, hP⟩ := h
  exact ⟨since, hsince, fun m hm => hPR _ (hP m hm)⟩

/-- How often something of a kind was recorded. -/
def tally (w : World) (p : Occurrence → Bool) : Nat :=
  w.history.countP fun m => p m.occurrence

@[simp]
theorem tally_alter (w : World) (f : State → State) (p : Occurrence → Bool) :
    (w.alter f).tally p = w.tally p :=
  rfl

@[simp]
theorem tally_noteUnder (w : World) (v : View) (o : Occurrence) (p : Occurrence → Bool) :
    (w.noteUnder v o).tally p = w.tally p + if p o then 1 else 0 := by
  simp [tally, List.countP_cons]

@[simp]
theorem tally_note (w : World) (o : Occurrence) (p : Occurrence → Bool) :
    (w.note o).tally p = w.tally p + if p o then 1 else 0 := by
  simp [tally, List.countP_cons]

end World

/-- All that operations in progress have in their hands is without a name. -/
def Hands.LooseIn (hands : Hands) (w : World) : Prop :=
  ∀ b, ¬ hands.MayEnd b → w.Loose b

namespace Hands

theorem looseIn_empty (w : World) : empty.LooseIn w := by
  intro b hb
  exact absurd ⟨List.not_mem_nil, List.not_mem_nil⟩ hb

theorem LooseIn.hold {hands : Hands} {w : World} {b : Key Batch} (h : hands.LooseIn w)
    (hb : w.Loose b) :
    (hands.hold b).LooseIn w := by
  intro b' hb'
  by_cases heq : b' = b
  · exact heq ▸ hb
  · exact h b' fun hmay => hb' ⟨by simp [Hands.hold, heq, hmay.1], hmay.2⟩

theorem LooseIn.lend {hands : Hands} {w : World} {b : Key Batch} (h : hands.LooseIn w)
    (hb : w.Loose b) :
    (hands.lend b).LooseIn w := by
  intro b' hb'
  by_cases heq : b' = b
  · exact heq ▸ hb
  · exact h b' fun hmay => hb' ⟨hmay.1, by simp [Hands.lend, heq, hmay.2]⟩

@[simp]
theorem mayTouch_lend (hands : Hands) (b b' : Key Batch) :
    (hands.lend b).MayTouch b' ↔ hands.MayTouch b' :=
  Iff.rfl

@[simp]
theorem mayTouch_hold (hands : Hands) (b b' : Key Batch) :
    (hands.hold b).MayTouch b' ↔ b' ≠ b ∧ hands.MayTouch b' := by
  simp [MayTouch, Hands.hold]

@[simp]
theorem mayEnd_hold (hands : Hands) (b b' : Key Batch) :
    (hands.hold b).MayEnd b' ↔ b' ≠ b ∧ hands.MayEnd b' := by
  simp [MayEnd, Hands.hold, and_assoc]

@[simp]
theorem mayEnd_lend (hands : Hands) (b b' : Key Batch) :
    (hands.lend b).MayEnd b' ↔ b' ≠ b ∧ hands.MayEnd b' := by
  simp only [MayEnd, Hands.lend, List.mem_cons, not_or]
  exact and_left_comm

theorem MayEnd.mayTouch {hands : Hands} {b : Key Batch} (h : hands.MayEnd b) :
    hands.MayTouch b :=
  h.1

/-- The batch was lent: it may be used, but neither ended nor named. -/
def Lent (hands : Hands) (b : Key Batch) : Prop :=
  hands.MayTouch b ∧ ¬ hands.MayEnd b

theorem MayTouch.lent {hands : Hands} {b : Key Batch} (h : hands.MayTouch b) :
    (hands.lend b).Lent b :=
  ⟨h, by simp⟩

theorem within_refl (hands : Hands) : hands.Within hands :=
  ⟨fun _ h => h, fun _ h => h⟩

theorem within_hold (hands : Hands) (b : Key Batch) : hands.Within (hands.hold b) :=
  ⟨fun b' h => ((mayTouch_hold hands b b').mp h).2,
    fun b' h => ((mayEnd_hold hands b b').mp h).2⟩

theorem within_lend (hands : Hands) (b : Key Batch) : hands.Within (hands.lend b) :=
  ⟨fun _ h => h, fun b' h => ((mayEnd_lend hands b b').mp h).2⟩

end Hands

/-- Less bound hands allow all that more bound ones do. -/
theorem Change.within {hands others : Hands} {w w' : World} (h : Change others w w')
    (hwithin : hands.Within others) :
    Change hands w w' := by
  obtain ⟨htouch, hend⟩ := hwithin
  cases h with
  | consult hplan => exact .consult hplan
  | addBus bus => exact .addBus bus
  | addTable name => exact .addTable name
  | addQueue => exact .addQueue
  | rename hhandles hbatches hloans hbuses htables hqueues =>
      exact .rename hhandles hbatches hloans hbuses htables hqueues
  | createEndpoint hbus => exact .createEndpoint hbus
  | acquire v hreferences => exact .acquire v hreferences
  | release hspare hreferences => exact .release hspare hreferences
  | releaseLast hspare hreferences hplan => exact .releaseLast hspare hreferences hplan
  | setToggle e value v => exact .setToggle e value v
  | advanceToggle e => exact .advanceToggle e
  | note v hfits ht he hyields =>
      exact .note v hfits (fun b hb => htouch b (ht b hb)) (fun b hb => hend b (he b hb)) hyields
  | install hspare hnamed hlookup => exact .install hspare hnamed hlookup
  | uninstall hslot hhistory hm => exact .uninstall hslot hhistory hm
  | giveUpTable ht hnamed => exact .giveUpTable ht hnamed
  | push c hq => exact .push c hq
  | handOut hpending => exact .handOut hpending
  | wake hwaker => exact .wake hwaker
  | leaveWaker waker hpending => exact .leaveWaker waker hpending
  | build hspare => exact .build hspare
  | giveUpEndpoint hb hnamed he => exact .giveUpEndpoint (hend _ hb) hnamed he
  | edit hb hedit => exact .edit (htouch _ hb) hedit
  | handOver hb hhandler => exact .handOver (hend _ hb) hhandler
  | detachHandler hb hhandler => exact .detachHandler (htouch _ hb) hhandler
  | attachHandler hb hsize hnone hspare hforwards =>
      exact .attachHandler (htouch _ hb) hsize hnone hspare hforwards
  | detachData hb hdata => exact .detachData (htouch _ hb) hdata
  | attachData hb hsize hnone hspare => exact .attachData (htouch _ hb) hsize hnone hspare
  | changeData hb hdata hchange => exact .changeData (htouch _ hb) hdata hchange
  | keepHandle name hspare => exact .keepHandle name hspare
  | takeHandle hfind hloan => exact .takeHandle hfind hloan
  | lend hhandle => exact .lend hhandle
  | unlend hhandle => exact .unlend hhandle
  | nameBatch name hb hsize hnamed hendpoint =>
      exact .nameBatch name (hend _ hb) hsize hnamed hendpoint
  | unnameBatch hfind => exact .unnameBatch hfind

theorem Changes.within {hands others : Hands} {w w' : World} (h : Changes others w w')
    (hwithin : hands.Within others) :
    Changes hands w w' := by
  induction h with
  | refl => exact .refl
  | tail _ hchange ih => exact ih.tail (hchange.within hwithin)

/-- Batches and tables are never forgotten. -/
theorem Change.size_le {hands : Hands} {w w' : World} (h : Change hands w w') :
    w.state.batches.size ≤ w'.state.batches.size ∧
      w.state.tables.size ≤ w'.state.tables.size := by
  cases h
  case uninstall hslot _ _ =>
    obtain ⟨_, -, rfl⟩ := State.uninstall?_eq_some hslot
    simp
  all_goals
    simp [State.setPlan, State.setDirectory, State.addTable, State.addEndpoint, State.gainReference,
      State.loseReference, State.install, State.clearTable, State.setQueue, State.addBatch,
      State.detachEndpoint, State.setTransfer, State.detachHandler, State.attachHandler,
      State.detachData, State.attachData, State.keepHandle, State.takeHandle]

theorem Changes.size_le {hands : Hands} {w w' : World} (h : Changes hands w w') :
    w.state.batches.size ≤ w'.state.batches.size ∧
      w.state.tables.size ≤ w'.state.tables.size := by
  induction h with
  | refl => exact ⟨Nat.le_refl _, Nat.le_refl _⟩
  | tail _ hchange ih =>
      exact ⟨Nat.le_trans ih.1 hchange.size_le.1, Nat.le_trans ih.2 hchange.size_le.2⟩

/-- A batch that was not there before is one that was built. -/
theorem Change.built_of_new {hands : Hands} {w w' : World} {b : Key Batch}
    (h : Change hands w w') (hnew : w.state.batches.size ≤ b.index)
    (hb : b.index < w'.state.batches.size) :
    b = w.state.batches.nextKey ∧
      ∃ e, w' = (w.alter (·.addBatch e)).note (.batchBuilt b e) := by
  have hother : w'.state.batches.size = w.state.batches.size →
      b = w.state.batches.nextKey ∧
        ∃ e, w' = (w.alter (·.addBatch e)).note (.batchBuilt b e) :=
    fun hsize => absurd (hsize ▸ hb) (Nat.not_lt_of_le hnew)
  cases h with
  | @build e =>
      simp only [World.note_state, World.alter_state, State.addBatch, Arena.size_push] at hb
      obtain rfl : b = w.state.batches.nextKey :=
        Key.ext (Nat.le_antisymm (Nat.le_of_lt_succ hb) hnew)
      exact ⟨rfl, e, rfl⟩
  | uninstall hslot =>
      obtain ⟨_, -, rfl⟩ := State.uninstall?_eq_some hslot
      exact hother rfl
  | giveUpEndpoint | edit | detachHandler | attachHandler | detachData | attachData
  | changeData => exact hother (Arena.size_modify _ _ _)
  | handOver => exact hother (by simp [State.setTransfer, State.detachHandler])
  | _ => exact hother rfl

/-- Of an endpoint only its toggle and its references change. -/
theorem Change.endpoint_apply_eq {α : Type} {hands : Hands} {w w' : World}
    (h : Change hands w w') {e : Key Endpoint} (he : e.index < w.state.endpoints.size)
    (f : Endpoint → α)
    (hf : ∀ (x : Endpoint) (toggle : Bool) (references : Nat),
      f { x with toggle := toggle, references := references } = f x) :
    f (w'.state.endpoints.get e) = f (w.state.endpoints.get e) ∧
      e.index < w'.state.endpoints.size := by
  have hmodified : ∀ (x : Key Endpoint) (g : Endpoint → Endpoint), (∀ x, f (g x) = f x) →
      f ((w.state.endpoints.modify x g).get e) = f (w.state.endpoints.get e) ∧
        e.index < (w.state.endpoints.modify x g).size := by
    intro x g hg
    rw [Arena.size_modify]
    exact ⟨w.state.endpoints.apply_get_modify x e g f hg, he⟩
  cases h with
  | uninstall hslot =>
      obtain ⟨_, -, rfl⟩ := State.uninstall?_eq_some hslot
      exact ⟨rfl, he⟩
  | createEndpoint =>
      simp only [World.note_state, World.alter_state, State.addEndpoint, Arena.size_push,
        Arena.get_push_of_lt _ _ he]
      exact ⟨trivial, Nat.lt_succ_of_lt he⟩
  | acquire | release | releaseLast | setToggle | advanceToggle =>
      exact hmodified _ _ fun x => hf x _ _
  | _ => exact ⟨rfl, he⟩

/-- Endpoints stay at their targets. -/
theorem Change.targetOf_eq {hands : Hands} {w w' : World} (h : Change hands w w')
    {e : Key Endpoint} (he : e.index < w.state.endpoints.size) :
    w'.state.targetOf e = w.state.targetOf e ∧ e.index < w'.state.endpoints.size :=
  h.endpoint_apply_eq he Endpoint.target fun _ _ _ => rfl

/-- What is in others' hands gets no name. -/
theorem Change.not_named {hands : Hands} {w w' : World} {b : Key Batch}
    (h : Change hands w w') (hb : ¬ hands.MayEnd b)
    (hnamed : b ∉ w.state.directory.batches.values) :
    b ∉ w'.state.directory.batches.values := by
  cases h with
  | rename _ hbatches =>
      simp only [World.alter_state, State.setDirectory, hbatches]
      exact hnamed
  | uninstall hslot =>
      obtain ⟨_, -, rfl⟩ := State.uninstall?_eq_some hslot
      exact hnamed
  | nameBatch name hmay =>
      intro hmem
      rcases List.mem_cons.mp (Names.values_insert_subset _ _ _ hmem) with rfl | hmem
      · exact hb hmay
      · exact hnamed hmem
  | unnameBatch => exact fun hmem => hnamed (Names.values_erase_subset _ _ hmem)
  | _ => exact hnamed

theorem Change.loose {hands : Hands} {w w' : World} {b : Key Batch}
    (h : Change hands w w') (hb : ¬ hands.MayEnd b) (hloose : w.Loose b) :
    w'.Loose b :=
  ⟨Nat.lt_of_lt_of_le hloose.1 h.size_le.1, h.not_named hb hloose.2⟩

/-- A batch that is held stays the same. -/
theorem Change.batch_eq {hands : Hands} {w w' : World} {b : Key Batch}
    (h : Change hands w w') (hb : ¬ hands.MayTouch b) (hloose : w.Loose b) :
    w'.state.batches.get b = w.state.batches.get b := by
  cases h with
  | uninstall hslot =>
      obtain ⟨_, -, rfl⟩ := State.uninstall?_eq_some hslot
      rfl
  | build =>
      simp only [World.note_state, World.alter_state, State.addBatch]
      rw [Arena.get_push_of_lt _ _ hloose.1]
  | giveUpEndpoint hmay =>
      exact Arena.get_modify_of_ne _ _ fun heq => hb (heq ▸ hmay.mayTouch)
  | handOver hmay =>
      have hne := fun (heq : b = _) => hb (heq ▸ hmay.mayTouch)
      exact (Arena.get_modify_of_ne _ _ hne).trans (Arena.get_modify_of_ne _ _ hne)
  | edit hmay | detachHandler hmay | attachHandler hmay | detachData hmay | attachData hmay
  | changeData hmay =>
      exact Arena.get_modify_of_ne _ _ fun heq => hb (heq ▸ hmay)
  | _ => rfl

/-- A batch that was lent stays on its endpoint. -/
theorem Change.endpoint_eq {hands : Hands} {w w' : World} {b : Key Batch}
    (h : Change hands w w') (hb : ¬ hands.MayEnd b) (hloose : w.Loose b) :
    (w'.state.batches.get b).endpoint = (w.state.batches.get b).endpoint := by
  cases h with
  | uninstall hslot =>
      obtain ⟨_, -, rfl⟩ := State.uninstall?_eq_some hslot
      rfl
  | build =>
      simp only [World.note_state, World.alter_state, State.addBatch]
      rw [Arena.get_push_of_lt _ _ hloose.1]
  | giveUpEndpoint hmay =>
      exact congrArg _ (Arena.get_modify_of_ne _ _ fun heq => hb (heq ▸ hmay))
  | handOver hmay =>
      have hne := fun (heq : b = _) => hb (heq ▸ hmay)
      exact congrArg _ ((Arena.get_modify_of_ne _ _ hne).trans (Arena.get_modify_of_ne _ _ hne))
  | edit | detachHandler | attachHandler | detachData | attachData | changeData =>
      exact Arena.apply_get_modify _ _ _ _ Batch.endpoint fun _ => rfl
  | _ => rfl

/-- A change records nothing about a batch that is held, and nothing that belongs to the end of a
batch that was lent. -/
theorem Change.adds {hands : Hands} {w w' : World} (h : Change hands w w') :
    World.Adds (fun o =>
      (∀ b, o.batch? = some b → hands.MayTouch b ∨ b = w.state.batches.nextKey) ∧
        ∀ b, o.endOf? = some b → hands.MayEnd b) w w' := by
  cases h with
  | consult | addBus | addTable | addQueue | rename | uninstall | leaveWaker | edit
  | detachHandler | detachData | changeData | keepHandle | takeHandle | lend | unlend
  | nameBatch | unnameBatch => exact ⟨[], rfl, by simp⟩
  | createEndpoint | acquire | release | setToggle | advanceToggle | install | giveUpTable
  | push | handOut | wake =>
      exact ⟨[_], rfl, by simp [Occurrence.batch?, Occurrence.endOf?]⟩
  | releaseLast =>
      exact ⟨[_, _], rfl, by simp [Occurrence.batch?, Occurrence.endOf?]⟩
  | note v hfits ht he =>
      refine ⟨[_], rfl, ?_⟩
      simp only [List.mem_singleton, forall_eq]
      exact ⟨fun b hb => Or.inl (ht b hb), he⟩
  | build =>
      exact ⟨[_], rfl, by simp [Occurrence.batch?, Occurrence.endOf?]⟩
  | giveUpEndpoint hb | handOver hb =>
      refine ⟨[_], rfl, ?_⟩
      simp [Occurrence.batch?, Occurrence.endOf?, hb, hb.mayTouch]
  | attachHandler hb | attachData hb =>
      refine ⟨[_], rfl, ?_⟩
      simp [Occurrence.batch?, Occurrence.endOf?, hb]

namespace Changes

variable {hands : Hands} {w w' : World} {b : Key Batch}

theorem loose (h : Changes hands w w') (hb : ¬ hands.MayEnd b) (hloose : w.Loose b) :
    w'.Loose b := by
  induction h with
  | refl => exact hloose
  | tail _ hchange ih => exact hchange.loose hb ih

theorem looseIn (h : Changes hands w w') (hloose : hands.LooseIn w) :
    hands.LooseIn w' :=
  fun b hb => h.loose hb (hloose b hb)

theorem batch_eq (h : Changes hands w w') (hb : ¬ hands.MayTouch b) (hloose : w.Loose b) :
    w'.state.batches.get b = w.state.batches.get b := by
  induction h with
  | refl => rfl
  | tail hbefore hchange ih =>
      exact (hchange.batch_eq hb (loose hbefore (fun h => hb h.mayTouch) hloose)).trans ih

theorem endpoint_eq (h : Changes hands w w') (hb : ¬ hands.MayEnd b) (hloose : w.Loose b) :
    (w'.state.batches.get b).endpoint = (w.state.batches.get b).endpoint := by
  induction h with
  | refl => rfl
  | tail hbefore hchange ih =>
      exact (hchange.endpoint_eq hb (loose hbefore hb hloose)).trans ih

/-- Endpoints stay on their buses. -/
theorem busOf_eq (h : Changes hands w w') {e : Key Endpoint}
    (he : e.index < w.state.endpoints.size) :
    w'.state.busOf e = w.state.busOf e ∧ e.index < w'.state.endpoints.size := by
  induction h with
  | refl => exact ⟨rfl, he⟩
  | tail _ hchange ih =>
      obtain ⟨hbus, hlater⟩ :=
        hchange.endpoint_apply_eq ih.2 Endpoint.bus fun _ _ _ => rfl
      exact ⟨hbus.trans ih.1, hlater⟩

/-- Nothing that happens to others is about a batch that is held. -/
theorem adds_aside (h : Changes hands w w') (hb : ¬ hands.MayTouch b) (hloose : w.Loose b) :
    World.Adds (fun o => o.batch? ≠ some b) w w' := by
  induction h with
  | refl => exact .refl _ _
  | tail hbefore hchange ih =>
      refine ih.trans (hchange.adds.mono fun o ho hbatch => ?_)
      have hloose' := loose hbefore (fun h => hb h.mayTouch) hloose
      rcases ho.1 b hbatch with hmay | rfl
      · exact hb hmay
      · exact Nat.lt_irrefl _ hloose'.1

end Changes

end UsbTransfer
