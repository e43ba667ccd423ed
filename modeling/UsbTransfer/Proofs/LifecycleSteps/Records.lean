import UsbTransfer.Proofs.LifecycleSteps.Batches

/-!
# What the lives of batches leave on record

A batch that is on its endpoint has the handler that it has by the record, batches with names did
not begin to end, and those whose end was recorded are without an endpoint.  Handlers are invoked by
batches that finish and by no others, and none is destroyed after its batch ended.
-/

namespace UsbTransfer

variable {w w' : World} {b : Key Batch}

/-- The moment that a step adds to the history, if it adds one. -/
structure World.Enters (w w' : World) (m : Moment) : Prop where
  history : w'.history = m :: w.history
  known : ∀ b, m.occurrence.handled? = some b → b.index < w'.state.batches.size
  built : ∀ b e, m.occurrence = .batchBuilt b e → w.state.batches.size ≤ b.index
  perished : ∀ b n lastWords, m.occurrence = .handlerDestroyed b n lastWords →
    w.Unended b ∧ n < w.state.serial ∧ (w'.state.batches.get b).handler.map (·.serial) ≠ some n
  finishing : ∀ b n name? c, m.occurrence = .handlerInvoked b n name? c →
    b ∉ w.state.directory.batches.values ∧
      (w.state.batches.get b).handler.map (·.serial) = some n ∧
        ∃ m' ∈ w.history, m'.occurrence = .finishing b
  ended : ∀ b, m.occurrence = .batchEnded b →
    b.index < w.state.batches.size ∧ (w.state.batches.get b).endpoint = none

/-- An occurrence that has nothing to do with handlers can be recorded at any time. -/
theorem World.Enters.of_aside {o : Occurrence} {s : State}
    (hhistory : w'.history = ⟨o, s⟩ :: w.history) (ho : o.handled? = none) :
    w.Enters w' ⟨o, s⟩ where
  history := hhistory
  known := by simp [ho]
  built := by
    rintro b e rfl
    cases ho
  perished := by
    rintro b n lastWords rfl
    cases ho
  finishing := by
    rintro b n name? c rfl
    cases ho
  ended := by
    rintro b rfl
    cases ho

theorem LifecycleStep.enters (h : LifecycleStep w w') :
    w'.history = w.history ∨ ∃ m, w.Enters w' m := by
  cases h with
  | alter | name | shed => exact .inl rfl
  | note hmere => exact .inr ⟨_, .of_aside rfl hmere.handled?⟩
  | call hasked => exact .inr ⟨_, .of_aside rfl (Occurrence.handled?_of_asked hasked)⟩
  | giveUp | install | uninstall | uninstallDevice | giveUpTable =>
      exact .inr ⟨_, .of_aside rfl rfl⟩
  | build e =>
      refine .inr ⟨_, rfl, ?_, ?_, by simp, by simp, by simp⟩
      · rintro b' hb'
        obtain rfl := Option.some.inj hb'
        simp [State.addBatch, Arena.nextKey, Arena.size, Arena.push]
      · rintro b' e' ho
        obtain ⟨rfl, -⟩ := Occurrence.batchBuilt.inj ho
        exact Nat.le_refl _
  | attach action captured noisy hb =>
      refine .inr ⟨_, rfl, ?_, by simp, by simp, by simp, by simp⟩
      rintro b' hb'
      obtain rfl := Option.some.inj hb'
      simpa [State.attachHandler, State.detachHandler] using hb
  | invoke t c hhandler hnamed hfinishing =>
      refine .inr ⟨_, rfl, ?_, by simp, by simp, ?_, by simp⟩
      · rintro b' hb'
        obtain rfl := Option.some.inj hb'
        simpa [State.setTransfer, State.detachHandler] using State.index_lt_of_handler hhandler
      · rintro b' n name? c' ho
        obtain ⟨rfl, rfl, -⟩ := Occurrence.handlerInvoked.inj ho
        exact ⟨hnamed, by rw [hhandler]; rfl, hfinishing⟩
  | perish lastWords hb hunended hn hgone =>
      refine .inr ⟨_, rfl, ?_, by simp, ?_, by simp, by simp⟩
      · rintro b' hb'
        obtain rfl := Option.some.inj hb'
        exact hb
      · rintro b' n' lastWords' ho
        obtain ⟨rfl, rfl, -⟩ := Occurrence.handlerDestroyed.inj ho
        exact ⟨hunended, hn, hgone⟩
  | finish hb he =>
      refine .inr ⟨_, rfl, ?_, by simp, by simp, by simp, ?_⟩
      · rintro b' hb'
        obtain rfl := Option.some.inj hb'
        exact hb
      · rintro b' ho
        obtain rfl := Occurrence.batchEnded.inj ho
        exact ⟨hb, he⟩

theorem LifecycleStep.suffix (h : LifecycleStep w w') : w.history <:+ w'.history := by
  rcases h.enters with hsame | ⟨m, hm⟩
  · exact hsame ▸ List.suffix_refl _
  · exact hm.history ▸ List.suffix_cons _ _

/-- A batch gets a name before it begins to end, if it gets one. -/
theorem LifecycleStep.named (h : LifecycleStep w w') (hb : b ∈ w'.state.directory.batches.values) :
    b ∈ w.state.directory.batches.values ∨ w'.Unspent b := by
  cases h with
  | alter hcalm => exact .inl (hcalm.names b hb)
  | name name hunspent =>
      rcases List.mem_cons.mp (Names.values_insert_subset _ _ _ hb) with rfl | hb
      · exact .inr hunspent
      · exact .inl hb
  | uninstall target hslot =>
      obtain ⟨_, -, rfl⟩ := State.uninstall?_eq_some hslot
      exact .inl hb
  | uninstallDevice count hvalues hothers hbatches hbuses hdirectory hserial =>
      rw [World.alter_state, hdirectory] at hb
      exact .inl hb
  | _ => exact .inl hb

/-- A batch that is on its endpoint after a step has the handler that it has by the record. -/
theorem LifecycleStep.tracks (h : LifecycleStep w w')
    (hw : ∀ b, (w.state.batches.get b).endpoint ≠ none → w.Tracks b)
    (hb : (w'.state.batches.get b).endpoint ≠ none) :
    w'.Tracks b := by
  -- the handler is the same and so is what is recorded of it
  have hkept : (w'.state.batches.get b).handler = (w.state.batches.get b).handler →
      ((w.state.batches.get b).endpoint = none → (w'.state.batches.get b).endpoint = none) →
        w.Spares b w' → w'.Tracks b := by
    intro hhandler hendpoint hspares
    have htracks := hw b fun hnone => hb (hendpoint hnone)
    unfold World.Tracks
    rw [hhandler, hspares.holds_eq]
    exact htracks
  have hmodified : ∀ {b' : Key Batch} {f : Batch → Batch},
      w'.state.batches = w.state.batches.modify b' f → b ≠ b' →
        w'.state.batches.get b = w.state.batches.get b := by
    intro b' f hbatches hne
    rw [hbatches]
    exact Arena.get_modify_of_ne _ _ hne
  cases h with
  | alter hcalm =>
      exact hkept (hcalm.handler b) (fun h => (hcalm.endpoint b).trans h) (.of_same rfl)
  | note hmere => exact hkept rfl id (.cons rfl (by simp [hmere.handled?]))
  | call hasked =>
      exact hkept rfl id (.cons rfl (by simp [Occurrence.handled?_of_asked hasked]))
  | name => exact hkept rfl id (.of_same rfl)
  | install | giveUpTable => exact hkept rfl id (.cons rfl (by simp [Occurrence.handled?]))
  | uninstall target hslot =>
      obtain ⟨_, -, rfl⟩ := State.uninstall?_eq_some hslot
      exact hkept rfl id (.cons rfl (by simp [Occurrence.handled?]))
  | uninstallDevice count hvalues hothers hbatches =>
      refine hkept ?_ ?_ (.cons rfl (by simp [Occurrence.handled?])) <;>
        rw [World.alter_state, hbatches]
      exact id
  | perish | finish => exact hw b hb
  | build e =>
      by_cases hnew : b = w.state.batches.nextKey
      · subst hnew
        unfold World.Tracks
        simp [State.addBatch, Arena.get_push, Batch.holds]
      · have hsame : (w.state.addBatch e).batches.get b = w.state.batches.get b := by
          simp [State.addBatch, Arena.get_push, hnew]
        refine hkept (congrArg Batch.handler hsame) (fun h => ?_) (.cons rfl fun heq => ?_)
        · exact (congrArg Batch.endpoint hsame).trans h
        · exact hnew (Option.some.inj heq).symm
  | @giveUp b' e he =>
      by_cases heq : b = b'
      · subst heq
        refine absurd ?_ hb
        exact congrArg Batch.endpoint (Arena.get_modify_self _ _ _ (State.index_lt_of_endpoint he))
      · have hsame := hmodified (f := fun batch => { batch with endpoint := none }) rfl heq
        refine hkept (congrArg Batch.handler hsame)
          (fun h => (congrArg Batch.endpoint hsame).trans h)
          (.cons rfl (by simp [Occurrence.handled?]))
  | @attach b' action captured noisy hsize =>
      have hbatches := Arena.modify_modify w.state.batches b'
        (fun batch => { batch with handler := none })
        (fun batch => { batch with handler := some ⟨w.state.serial, action, captured, noisy⟩ })
      by_cases heq : b = b'
      · subst heq
        unfold World.Tracks
        simp only [World.note_state, World.alter_state, World.note_history, State.attachHandler,
          State.detachHandler, hbatches, Arena.get_modify_self _ _ _ hsize]
        simp [Batch.holds]
      · have hsame := hmodified hbatches heq
        refine hkept (congrArg Batch.handler hsame)
          (fun h => (congrArg Batch.endpoint hsame).trans h) (.cons rfl fun h => heq ?_)
        exact (Option.some.inj h).symm
  | @invoke b' handler t c hhandler =>
      have hbatches := Arena.modify_modify w.state.batches b'
        (fun batch => { batch with handler := none }) (fun batch => { batch with transfer := t })
      by_cases heq : b = b'
      · subst heq
        unfold World.Tracks
        simp only [World.note_state, World.alter_state, World.note_history, State.setTransfer,
          State.detachHandler, hbatches,
          Arena.get_modify_self _ _ _ (State.index_lt_of_handler hhandler)]
        simp [Batch.holds]
      · have hsame := hmodified hbatches heq
        refine hkept (congrArg Batch.handler hsame)
          (fun h => (congrArg Batch.endpoint hsame).trans h) (.cons rfl fun h => heq ?_)
        exact (Option.some.inj h).symm
  | @shed b' he =>
      by_cases heq : b = b'
      · subst heq
        refine absurd ?_ hb
        exact (w.state.batches.apply_get_modify b b (fun batch => { batch with handler := none })
          Batch.endpoint fun _ => rfl).trans he
      · have hsame := hmodified (f := fun batch => { batch with handler := none }) rfl heq
        exact hkept (congrArg Batch.handler hsame)
          (fun h => (congrArg Batch.endpoint hsame).trans h) (.of_same rfl)

/-- What the history tells of the handlers of batches. -/
structure World.Documented (w : World) : Prop where
  known : ∀ m ∈ w.history, ∀ b, m.occurrence.handled? = some b → b.index < w.state.batches.size
  /-- Nothing was recorded about a batch before it was built. -/
  fresh : ∀ m earlier, m :: earlier <:+ w.history → ∀ b e, m.occurrence = .batchBuilt b e →
    ∀ m' ∈ earlier, m'.occurrence.handled? ≠ some b
  unspent : ∀ b ∈ w.state.directory.batches.values, w.Unspent b
  tracks : ∀ b, (w.state.batches.get b).endpoint ≠ none → w.Tracks b
  ended : ∀ m ∈ w.history, ∀ b, m.occurrence = .batchEnded b →
    (w.state.batches.get b).endpoint = none
  destroyed : ∀ m ∈ w.history, ∀ b n lastWords, m.occurrence = .handlerDestroyed b n lastWords →
    n < w.state.serial ∧ (w.state.batches.get b).handler.map (·.serial) ≠ some n
  perished : ∀ m earlier, m :: earlier <:+ w.history → ∀ b n lastWords,
    m.occurrence = .handlerDestroyed b n lastWords → ∀ m' ∈ earlier, m'.occurrence ≠ .batchEnded b
  finishing : ∀ m earlier, m :: earlier <:+ w.history → ∀ b n name? c,
    m.occurrence = .handlerInvoked b n name? c →
      (∃ m' ∈ earlier, m'.occurrence = .finishing b) ∧
        ∀ m' ∈ earlier, ∀ lastWords, m'.occurrence ≠ .handlerDestroyed b n lastWords

theorem documented_empty : World.empty.Documented where
  known := by simp [World.empty]
  fresh := by simp [World.empty]
  unspent := by simp [World.Without, World.empty]
  tracks := fun _ _ => rfl
  ended := by simp [World.empty]
  destroyed := by simp [World.empty]
  perished := by simp [World.empty]
  finishing := by simp [World.empty]

theorem LifecycleStep.documented (h : LifecycleStep w w') (hw : w.Documented) : w'.Documented := by
  have hlost : ∀ b : Key Batch, b.index < w.state.batches.size →
      (w.state.batches.get b).endpoint = none → (w'.state.batches.get b).endpoint = none := by
    intro b hb hnone
    exact LifecycleSteps.endpoint_none (.single h) hb hnone
  have hsize := LifecycleSteps.size_le (.single h)
  -- no handler returns to its batch
  have haway : ∀ (b : Key Batch) (n : Nat), n < w.state.serial →
      (w.state.batches.get b).handler.map (·.serial) ≠ some n →
        (w'.state.batches.get b).handler.map (·.serial) ≠ some n := by
    intro b n hn hgone hback
    obtain ⟨handler, hhandler, rfl⟩ := Option.map_eq_some_iff.mp hback
    rcases h.handler_cases hhandler with hold | ⟨hnew, -⟩
    · exact hgone (by rw [hold]; rfl)
    · omega
  rcases h.enters with hsame | ⟨m, hm⟩
  · refine ⟨?_, hsame ▸ hw.fresh, ?_, fun b => h.tracks hw.tracks, ?_, ?_, hsame ▸ hw.perished,
      hsame ▸ hw.finishing⟩
    · exact fun m hm b hb => Nat.lt_of_lt_of_le (hw.known m (hsame ▸ hm) b hb) hsize
    · intro b hb
      refine (h.named hb).elim (fun hnamed => ?_) id
      exact (hw.unspent b hnamed).of_adds (World.Adds.of_same (P := fun _ => False) hsame)
        fun _ h => h.elim
    · intro m hm b ho
      rw [hsame] at hm
      exact hlost b (hw.known m hm b (by rw [ho]; rfl)) (hw.ended m hm b ho)
    · intro m hm b n lastWords ho
      obtain ⟨hn, hgone⟩ := hw.destroyed m (hsame ▸ hm) b n lastWords ho
      exact ⟨Nat.lt_of_lt_of_le hn h.serial_le, haway b n hn hgone⟩
  · have hnew : ∀ {m' earlier}, m' :: earlier <:+ w'.history →
        m' = m ∧ earlier = w.history ∨ m' :: earlier <:+ w.history := by
      intro m' earlier hm'
      rw [hm.history] at hm'
      exact (List.suffix_cons_iff.mp hm').imp_left List.cons.inj
    have hmem : ∀ {m'}, m' ∈ w'.history → m' = m ∨ m' ∈ w.history := by
      intro m' hm'
      exact List.mem_cons.mp (hm.history ▸ hm')
    refine ⟨?_, ?_, ?_, fun b => h.tracks hw.tracks, ?_, ?_, ?_, ?_⟩
    · intro m' hm' b hb
      rcases hmem hm' with rfl | hm'
      · exact hm.known b hb
      · exact Nat.lt_of_lt_of_le (hw.known m' hm' b hb) hsize
    · intro m' earlier hm' b e ho
      rcases hnew hm' with ⟨rfl, rfl⟩ | hm'
      · intro m₁ hm₁ hb
        exact Nat.not_lt_of_le (hm.built b e ho) (hw.known m₁ hm₁ b hb)
      · exact hw.fresh m' earlier hm' b e ho
    · intro b hb
      refine (h.named hb).elim (fun hnamed => ?_) id
      rintro m' hm' ⟨n, name?, c, ho⟩
      rcases hmem hm' with rfl | hm'
      · exact (hm.finishing b n name? c ho).1 hnamed
      · exact hw.unspent b hnamed m' hm' ⟨n, name?, c, ho⟩
    · intro m' hm' b ho
      rcases hmem hm' with rfl | hm'
      · exact hlost b (hm.ended b ho).1 (hm.ended b ho).2
      · exact hlost b (hw.known m' hm' b (by rw [ho]; rfl)) (hw.ended m' hm' b ho)
    · intro m' hm' b n lastWords ho
      rcases hmem hm' with rfl | hm'
      · obtain ⟨-, hn, hgone⟩ := hm.perished b n lastWords ho
        exact ⟨Nat.lt_of_lt_of_le hn h.serial_le, hgone⟩
      · obtain ⟨hn, hgone⟩ := hw.destroyed m' hm' b n lastWords ho
        exact ⟨Nat.lt_of_lt_of_le hn h.serial_le, haway b n hn hgone⟩
    · intro m' earlier hm' b n lastWords ho
      rcases hnew hm' with ⟨rfl, rfl⟩ | hm'
      · exact (hm.perished b n lastWords ho).1
      · exact hw.perished m' earlier hm' b n lastWords ho
    · intro m' earlier hm' b n name? c ho
      rcases hnew hm' with ⟨rfl, rfl⟩ | hm'
      · obtain ⟨-, hheld, hfinishing⟩ := hm.finishing b n name? c ho
        exact ⟨hfinishing, fun m' hm' lastWords ho' =>
          (hw.destroyed m' hm' b n lastWords ho').2 hheld⟩
      · exact hw.finishing m' earlier hm' b n name? c ho

theorem LifecycleSteps.documented (h : LifecycleSteps World.empty w) : w.Documented :=
  kept_of_steps (fun _ _ => LifecycleStep.documented) h documented_empty

end UsbTransfer
