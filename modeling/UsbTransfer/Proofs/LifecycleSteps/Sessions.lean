import UsbTransfer.Proofs.LifecycleSteps.Records

/-!
# The lives of batches and tables in sessions

A command uses and ends no batches but those that it has in hands, and so do scripts and whole
sessions.  A command leaves no batch in hands: between commands every batch has a name or ended.
-/

namespace UsbTransfer
namespace Session

open Run

variable {own : Option (Key Batch)} {play : Player} {b : Key Batch} {w w₀ : World}

/-! ## Names of batches -/

/-- Whoever takes a batch from its name has it in hands. -/
theorem ensures_takeBatch_touchesOnly (hw : w.Tame none) (name : String) :
    Ensures (takeBatch name) w fun r w' =>
      (∃ mistake, r = .ok (.error mistake) ∧ w' = w) ∨
        ∃ b, r = .ok (.ok b) ∧ w.TouchesOnly (some b) w' ∧ ¬ w.Loose b ∧ w'.Unspent b := by
  unfold takeBatch
  simp only [ensures_bind, ensures_getState, then_ok]
  split
  · exact .inl ⟨_, rfl, rfl⟩
  · next b hfind =>
      simp only [ensures_bind, ensures_modifyDirectory, then_ok, ensures_pure]
      have hnamed : b ∈ w.state.directory.batches.values := Names.mem_values_of_find? hfind
      have hvalues : ∀ b', b' ∈ w.state.directory.batches.values ↔
          b' ∈ b :: (w.state.directory.batches.erase name).values :=
        fun _ => (Names.values_perm_of_find? hfind).mem_iff
      have hsubset : ∀ b' ∈ (w.state.directory.batches.erase name).values,
          b' ∈ w.state.directory.batches.values :=
        fun _ h => Names.values_erase_subset w.state.directory.batches name h
      refine .inr ⟨b, rfl, ⟨⟨Names.nodup_erase hw.nodup name, ?_, ?_, ?_, ?_, hw.known, hw.numbers⟩,
        List.suffix_refl _, .single (.alter ?_), ?_, ?_⟩, fun h => h.2 hnamed,
        hw.unspent b hnamed⟩
      · exact fun b' hb' => hw.exist b' (hsubset b' hb')
      · rintro b' hb'
        obtain rfl := Option.some.inj hb'
        exact ⟨hw.exist _ hnamed, Names.not_mem_erase_of_find? hw.nodup hfind⟩
      · exact fun b' hb' => hw.unspent b' (hsubset b' hb')
      · rintro b' (hb' | hb')
        · exact hw.unended b' (.inl (hsubset b' hb'))
        · obtain rfl := Option.some.inj hb'
          exact hw.unended b (.inl hnamed)
      · exact ⟨fun _ => rfl, fun _ => rfl, fun _ => rfl, rfl, hsubset, fun _ _ => rfl,
          Nat.le_refl _, Nat.le_refl _⟩
      · exact fun b' _ hloose => ⟨⟨hloose.1, fun h => hloose.2 (hsubset b' h)⟩, rfl, .of_same rfl⟩
      · rintro b' hb' ⟨⟨hsize, hnot⟩, hended⟩
        refine ⟨⟨hsize, fun h => ?_⟩, fun h => hended (h.of_suffix rfl (List.suffix_refl _))⟩
        rcases List.mem_cons.mp ((hvalues b').mp h) with rfl | h
        · exact hb' rfl
        · exact hnot h

/-- A batch in hands gets a name, and the one that had the name is dropped. -/
theorem ensures_keepBatch_touchesOnly (hplay : play.UsesOnlyAtHand) (h : w₀.TouchesOnly (some b) w)
    (hb : ¬ w₀.Loose b) (hunspent : w.Unspent b) (name : String) :
    Ensures (keepBatch play name b) w fun _ w' => w₀.TouchesOnly none w' := by
  have hloose := h.tame.loose b rfl
  have hvalues : ∀ {b'}, b' ∈ (w.state.directory.batches.insert name b).values ↔
      b' ∈ b :: (w.state.directory.batches.erase name).values :=
    (Names.values_insert_perm w.state.directory.batches name b).mem_iff
  have hinserted : ∀ b' ∈ (w.state.directory.batches.insert name b).values,
      b' = b ∨ b' ∈ w.state.directory.batches.values := fun b' hb' =>
    (List.mem_cons.mp (hvalues.mp hb')).imp id fun h => Names.values_erase_subset _ _ h
  have hnamed : World.Tame none (w.alter (·.nameBatch name b)) := by
    refine ⟨Names.nodup_insert h.tame.nodup name hloose.2, fun b' hb' => ?_, by simp,
      fun b' hb' => ?_, fun b' hb' => ?_, h.tame.known, h.tame.numbers⟩
    · rcases hinserted b' hb' with rfl | hb'
      · exact hloose.1
      · exact h.tame.exist b' hb'
    · rcases hinserted b' hb' with rfl | hb'
      · exact hunspent
      · exact h.tame.unspent b' hb'
    · rcases hinserted b' (hb'.resolve_right (by simp)) with rfl | hb'
      · exact h.tame.unended b' (.inr rfl)
      · exact h.tame.unended b' (.inl hb')
  have hsteps :
      LifecycleSteps w₀ (w.alter (·.nameBatch name b)) := h.steps.tail (.name name hunspent)
  -- who had no name and is not the batch has none still
  have hsecluded : ∀ b', w₀.Loose b' → (w.alter (·.nameBatch name b)).Loose b' ∧
      w.state.batches.get b' = w₀.state.batches.get b' ∧
        w₀.Spares b' (w.alter (·.nameBatch name b)) := by
    intro b' hloose'
    have hne : b' ≠ b := fun heq => hb (heq ▸ hloose')
    obtain ⟨hlater, hsame, hspares⟩ :=
      h.secluded b' (fun heq => hne (Option.some.inj heq).symm) hloose'
    refine ⟨⟨hlater.1, fun hmem => ?_⟩, hsame, hspares⟩
    exact (hinserted b' hmem).elim hne hlater.2
  -- who lost the name, if anybody did
  have hpending : ∀ b', w.state.directory.batches.find? name ≠ some b' →
      (w.alter (·.nameBatch name b)).Pending b' → w₀.Pending b' := by
    rintro b' hother ⟨⟨hsize, hnot⟩, hended⟩
    have hne : b' ≠ b := fun heq => hnot (hvalues.mpr (heq ▸ List.mem_cons_self))
    refine h.pending b' (fun heq => hne (Option.some.inj heq).symm)
      ⟨⟨hsize, fun hmem => hnot (hvalues.mpr (List.mem_cons_of_mem _ ?_))⟩,
        fun h' => hended (h'.of_suffix rfl (List.suffix_refl _))⟩
    cases hfind : w.state.directory.batches.find? name with
    | none => rwa [Names.erase_of_find?_eq_none hfind]
    | some replaced =>
        rcases List.mem_cons.mp ((Names.values_perm_of_find? hfind).mem_iff.mp hmem) with rfl | h
        · exact absurd hfind hother
        · exact h
  unfold keepBatch
  simp only [ensures_bind, ensures_getState, then_ok, ensures_modifyDirectory]
  split
  · next hfind =>
      exact ⟨hnamed, h.suffix, hsteps, fun b' _ => hsecluded b',
        fun b' _ => hpending b' (by simp [hfind])⟩
  · next replaced hfind =>
      have hmem : replaced ∈ w.state.directory.batches.values := Names.mem_values_of_find? hfind
      have hne : replaced ≠ b := fun heq => hloose.2 (heq ▸ hmem)
      have hfree : replaced ∉ (w.state.directory.batches.insert name b).values := fun h' =>
        (List.mem_cons.mp (hvalues.mp h')).elim hne
          (Names.not_mem_erase_of_find? h.tame.nodup hfind)
      have hreplaced : w₀.TouchesOnly (some replaced) (w.alter (·.nameBatch name b)) := by
        refine ⟨{ hnamed with loose := ?_, unended := ?_ }, h.suffix, hsteps,
          fun b' _ => hsecluded b', fun b' hb' => hpending b' fun heq => hb' (hfind.symm.trans heq)⟩
        · rintro b' hb'
          obtain rfl := Option.some.inj hb'
          exact ⟨h.tame.exist _ hmem, hfree⟩
        · rintro b' (hb' | hb')
          · exact hnamed.unended b' (.inl hb')
          · obtain rfl := Option.some.inj hb'
            exact h.tame.unended replaced (.inl hmem)
      have hold : ¬ w₀.Loose replaced := fun hloose' =>
        (h.secluded replaced (fun heq => hne (Option.some.inj heq).symm) hloose').1.2 hmem
      exact Ensures.mono (Batch.Ending.ensures_departs hplay hreplaced.tame .drop)
        fun _ _ hr => hreplaced.departed hr hold

theorem usesOnly_onBatch (hplay : play.UsesOnlyAtHand) (atHand : Option (Key Batch)) (name : String)
    {act : Key Batch → Run Result} (hact : ∀ b, UsesOnly (some b) (act b)) :
    UsesOnly atHand (onBatch play atHand name act) := by
  unfold onBatch
  split
  · next b hb =>
      split at hb
      · exact hb ▸ hact b
      · cases hb
  · refine UsesOnly.beside (usesOnly_of_tame fun w hw => ?_)
    rw [ensures_bind]
    refine Ensures.mono (ensures_takeBatch_touchesOnly hw name) fun r w₁ hr => ?_
    rcases hr with ⟨mistake, rfl, rfl⟩ | ⟨b, rfl, htaken, hnamed, hunspent⟩
    · exact .refl hw
    · simp only [then_ok, ensures_ensuring]
      refine Ensures.mono ((hact b).ensures htaken.tame) fun r w₂ h₂ => ?_
      exact Ensures.mono (ensures_keepBatch_touchesOnly hplay (htaken.trans h₂.toTouchesOnly) hnamed
        (h₂.unspent b rfl hunspent) name) fun _ _ h => h.usesOnly

/-- A batch is taken from its name and ends. -/
theorem usesOnly_takeEnd {α : Type} (name : String) {refused : Mistake → α}
    {ends : Key Batch → Run α}
    (hends : ∀ b (w : World), w.Tame (some b) →
      Ensures (ends b) w fun _ w' => w.Departs play b w') :
    UsesOnly own (takeBatch name >>= fun answer =>
      match answer with
      | .error mistake => pure (refused mistake)
      | .ok b => ends b) := by
  refine UsesOnly.beside (usesOnly_of_tame fun w hw => ?_)
  rw [ensures_bind]
  refine Ensures.mono (ensures_takeBatch_touchesOnly hw name) fun r w₁ hr => ?_
  rcases hr with ⟨mistake, rfl, rfl⟩ | ⟨b, rfl, htaken, hnamed, -⟩
  · exact .refl hw
  · rw [then_ok]
    exact Ensures.mono (hends b w₁ htaken.tame) fun _ _ h => (htaken.departed h hnamed).usesOnly

theorem usesOnly_endBatch (hplay : play.UsesOnlyAtHand) (name : String) (ending : Batch.Ending) :
    UsesOnly own (endBatch name fun b => ending.run play b) := by
  have hends : ∀ b (w : World), w.Tame (some b) →
      Ensures (ending.run play b >>= fun _ => pure (.ok .done : Result)) w
        fun _ w' => w.Departs play b w' := by
    intro b w hw
    rw [ensures_bind]
    refine Ensures.mono (ending.ensures_departs hplay hw) fun r w' hr => ?_
    cases r with
    | error fault => exact hr
    | ok _ => exact hr
  exact usesOnly_takeEnd name hends

/-- A batch that was brought into being gets a name. -/
theorem ensures_named (hplay : play.UsesOnlyAtHand) {w₁ : World} (h : w.Brings (some b) w₁)
    (name : String) (answer : Result) :
    Ensures (keepBatch play name b >>= fun _ => pure answer) w₁ fun _ w' => w.UsesOnly none w' := by
  rw [ensures_bind]
  refine Ensures.mono (ensures_keepBatch_touchesOnly hplay h.touchesOnly h.not_loose
    (h.unspent b rfl) name) fun r w' hr => ?_
  cases r with
  | error fault => exact hr.usesOnly
  | ok _ => exact hr.usesOnly

theorem usesOnly_createBatch (hplay : play.UsesOnlyAtHand) (handle name : String) :
    UsesOnly own (createBatch play handle name) := by
  refine UsesOnly.beside (follows_getState_bind fun s => ?_)
  split
  · exact follows_pure _
  · next h _ =>
      refine hplay.walk.lending h (usesOnly_of_tame fun w hw => ?_)
      rw [ensures_bind]
      refine Ensures.mono (Batch.ensures_create_brings hplay hw h.endpoint) fun r w₁ h₁ => ?_
      cases r with
      | error fault => exact h₁.touchesOnly.usesOnly
      | ok answer =>
          cases answer with
          | error error => exact h₁.touchesOnly.usesOnly
          | ok b =>
              simp only [then_ok, ensures_bind, ensures_getState]
              rw [← ensures_bind]
              exact ensures_named hplay h₁ name _

theorem usesOnly_newBatch (hplay : play.UsesOnlyAtHand) (handle name : String) :
    UsesOnly own (newBatch play handle name) := by
  refine follows_withEndpoint handle fun e => UsesOnly.beside (usesOnly_of_tame fun w hw => ?_)
  rw [ensures_bind]
  refine Ensures.mono (Batch.ensures_build_brings hplay hw e) fun r w₁ h₁ => ?_
  cases r with
  | error fault => exact h₁.touchesOnly.usesOnly
  | ok b =>
      simp only [then_ok, ensures_bind, ensures_getState]
      rw [← ensures_bind]
      exact ensures_named hplay h₁ name _

/-- The batch that somebody has in hands can be used. -/
theorem usesOnly_use (hplay : play.UsesOnlyAtHand) (b : Key Batch) :
    BatchUse (World.UsesOnlyIfTame (some b)) .all play b where
  toLibraryWalk := hplay.walk
  modifyTransfer := Batch.usesOnly_modifyTransfer
  attachHandler := fun captured noisy _ => Batch.usesOnly_attachHandler hplay _ captured noisy
  attachData := hplay.walk.attachData World.UsesOnlyIfTame.of_dataStep
  changeData := LibraryWalk.changeData World.UsesOnlyIfTame.of_dataStep
  takeData := hplay.walk.takeData World.UsesOnlyIfTame.of_dataStep

/-! ## All commands -/

theorem usesOnly_carryOut (hplay : play.UsesOnlyAtHand) (atHand : Option (Key Batch))
    (command : Command) :
    UsesOnly atHand (carryOut play atHand command) := by
  refine hplay.walk.carryOut (A := .all) (usesOnly_use hplay) atHand
    (fun name _ hact => usesOnly_onBatch hplay atHand name hact) trivial fun hlifecycle => ?_
  cases command with
  | createBatch handle batch => exact usesOnly_createBatch hplay handle batch
  | newBatch handle batch => exact usesOnly_newBatch hplay handle batch
  | finish batch => exact usesOnly_endBatch hplay batch .finish
  | abort batch => exact usesOnly_endBatch hplay batch .abort
  | destroy batch => exact usesOnly_endBatch hplay batch .destroy
  | _ => exact hlifecycle.elim

/-- However many scripts may run inside each other, they use no batches but those at hand. -/
theorem usesOnlyAtHand_player (limit : Nat) : (player limit).UsesOnlyAtHand := by
  induction limit with
  | zero => exact fun _ _ _ => .single (.note trivial)
  | succ limit ih =>
      refine fun atHand script => Follows.forM fun command _ => ?_
      unfold playCommand
      split
      · exact follows_throw _
      · exact Follows.bind (follows_settle (usesOnly_carryOut ih atHand _)) fun _ _ =>
          .single (.note trivial)

theorem usesOnly_close (hplay : play.UsesOnlyAtHand) : UsesOnly none (close play) := by
  refine hplay.walk.close fun name => ?_
  exact usesOnly_takeEnd name fun b w hw => Batch.Ending.ensures_departs hplay hw .drop

theorem tame_empty : World.empty.Tame none where
  nodup := List.nodup_nil
  exist := by simp [World.empty, State.empty, Directory.empty, Names.empty, Names.values]
  loose := by simp
  unspent := by simp [World.Without, World.empty]
  unended := by simp [World.Without, World.empty]
  known := by simp [World.empty]
  numbers := by
    intro b handler h
    cases h

/-- Sessions touch no batches but those that they have in hands. -/
theorem Idle.touchesOnly (h : Idle w) : World.empty.TouchesOnly none w := by
  induction h with
  | start => exact .refl tame_empty
  | @step w _ limit command ih =>
      have hsettle : UsesOnly none (settle (carryOut (player limit) none command)) :=
        follows_settle (usesOnly_carryOut (usesOnlyAtHand_player limit) none command)
      rw [world_step]
      exact (Ensures.mono (hsettle.after ih.usesOnly) fun _ _ h => h.toTouchesOnly).worldAfter
  | close _ limit ih =>
      exact (Ensures.mono ((usesOnly_close (usesOnlyAtHand_player limit)).after ih.usesOnly)
        fun _ _ h => h.toTouchesOnly).worldAfter

/-- Between commands no batch is in hands. -/
theorem Idle.ended (h : Idle w) (hb : w.Loose b) : w.Ended b := by
  by_contra hended
  have hpending := h.touchesOnly.pending b (by simp) ⟨hb, hended⟩
  exact absurd hpending.1.1 (Nat.not_lt_zero _)

end Session

/-! ## Steps up to a moment -/

open Session

variable {w w' w₀ : World} {m : Moment} {earlier : List Moment}

/-- A step that hands control to user code does so in the end. -/
theorem LifecycleStep.last (h : LifecycleStep w w') (hm : m :: earlier <:+ w'.history)
    (hnew : ¬ m :: earlier <:+ w.history) (hyields : m.occurrence.Yields) :
    w' = ⟨m.state, m :: earlier⟩ := by
  cases h with
  | alter | name | shed => exact absurd hm hnew
  | note | call | build | giveUp | attach | invoke | perish | finish =>
      exact eq_of_noted hm hnew hyields rfl fun _ => rfl
  | install | uninstall | uninstallDevice | giveUpTable =>
      exact eq_of_noted hm hnew hyields rfl fun h => h.elim

/-- Wherever user code gets control, it finds a world between steps. -/
theorem LifecycleSteps.amid (h : LifecycleSteps w₀ w) (hm : m :: earlier <:+ w.history)
    (hnew : ¬ m :: earlier <:+ w₀.history) (hyields : m.occurrence.Yields) :
    LifecycleSteps w₀ ⟨m.state, m :: earlier⟩ ∧ LifecycleSteps ⟨m.state, m :: earlier⟩ w := by
  induction h with
  | refl => exact absurd hm hnew
  | @tail w₁ w₂ hbefore hstep ih =>
      by_cases hearly : m :: earlier <:+ w₁.history
      · exact ⟨(ih hearly).1, (ih hearly).2.tail hstep⟩
      · rw [← hstep.last hm hearly hyields]
        exact ⟨hbefore.tail hstep, .refl⟩

namespace Session

theorem Reachable.lifecycleSteps (h : Reachable w) : LifecycleSteps World.empty w := by
  cases h with
  | idle h => exact h.touchesOnly.steps
  | amid h hm hyields =>
      refine (h.touchesOnly.steps.amid hm (fun hempty => ?_) hyields).1
      exact absurd (List.suffix_nil.mp hempty) (List.cons_ne_nil _ _)

theorem Reachable.documented (h : Reachable w) : w.Documented :=
  h.lifecycleSteps.documented

/-- Wherever user code gets control, batches are looked after. -/
theorem Reachable.tame (h : Reachable w) : w.Tame none where
  nodup := h.ready.sound.batchesNodup
  exist := fun _ hb =>
    have hlive := h.ready.sound.batchesLive _ hb
    State.index_lt_of_endpoint (Option.isSome_iff_exists.mp hlive).choose_spec
  loose := by simp
  unspent := h.documented.unspent
  unended := by
    intro b hb m hm ho
    have hlive := h.ready.sound.batchesLive b (hb.resolve_right (by simp))
    simp [h.documented.ended m hm b ho] at hlive
  known := h.documented.known
  numbers := fun b => (h.ready.sound.itemsOld b).1

end Session
end UsbTransfer
