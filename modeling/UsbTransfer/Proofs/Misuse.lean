import UsbTransfer.Proofs.Sessions

/-!
# Faults and locks

User code can give up, and it can misuse a batch in three ways; nothing else interrupts a command.
Whenever user code gets control no lock is held, so that nothing it does runs into a lock or leaves
a poisoned one behind.
-/

namespace UsbTransfer

open Run

/-- No lock is held or poisoned. -/
structure State.Unlocked (s : State) : Prop where
  tables : ∀ t, (s.tables.get t).lock = .free
  queues : ∀ q, (s.queues.get q).lock = .free

theorem State.Sound.unlocked {s : State} (hs : s.Sound) : s.Unlocked :=
  ⟨hs.tablesFree, hs.queuesFree⟩

/-- No lock is held or poisoned now, nor was one whenever user code got control. -/
structure World.Open (w : World) : Prop where
  now : w.state.Unlocked
  whenever : ∀ m ∈ w.history, m.occurrence.Yields → m.state.Unlocked

namespace Session

variable {play : Player} {w : World} {b : Key Batch} {atHand : Option (Key Batch)} {name : String}

theorem open_of_changes (h : Changes Hands.empty World.empty w) : w.Open where
  now := (h.ready ready_empty).sound.unlocked
  whenever := by
    intro m hm hyields
    obtain ⟨later, earlier, hhistory⟩ := List.append_of_mem hm
    have hsuffix : m :: earlier <:+ w.history := ⟨later, hhistory.symm⟩
    have hamid : Changes Hands.empty World.empty ⟨m.state, m :: earlier⟩ :=
      changes_amid h hsuffix (fun hempty => by cases List.suffix_nil.mp hempty) hyields
    exact (hamid.ready ready_empty).sound.unlocked

/-! ## Misuses -/

/-- What interrupts the use of a batch interrupts the command, and the batch gets its name back
without changing that. -/
theorem ensures_onBatch_of_fault {act : Key Batch → Run Result} {fault : Fault}
    (hmeant : meant? w.state atHand name = some b)
    (hact : ∀ w', w'.state.batches = w.state.batches →
      Ensures (act b) w' fun r _ => r = .error fault) :
    Ensures (onBatch play atHand name act) w fun r _ => r = .error fault := by
  unfold meant? at hmeant
  unfold onBatch
  cases hatHand : (if name = atHandName then atHand else none) with
  | some b' =>
      rw [hatHand, Option.some_or, Option.some_inj] at hmeant
      subst hmeant
      exact hact w rfl
  | none =>
      rw [hatHand, Option.none_or] at hmeant
      rw [ensures_bind, ensures_takeBatch_of_named hmeant, then_ok, ensures_ensuring]
      refine Ensures.mono (hact _ rfl) fun r w' hr => ?_
      refine Ensures.mono (ensures_worldAfter (keepBatch play name b) w') fun r' _ _ => ?_
      rw [hr, settled_error]

/-- A misuse ends in its fault. -/
theorem Misuse.ensures_carryOut {command : Command} {fault : Fault}
    (h : Misuse atHand w.state command fault) :
    Ensures (carryOut play atHand command) w fun r _ => r = .error fault := by
  cases h with
  | scheduledTwice hmeant hphase =>
      refine ensures_onBatch_of_fault hmeant fun w' hsame => ?_
      unfold State.transferOf at hphase ⊢
      simp only [schedule, Batch.schedule, ensures_bind, ensures_getState, then_ok,
        State.transferOf, hsame, Transfer.schedule, hphase]
      rfl
  | setupWithoutControl hmeant htype =>
      refine ensures_onBatch_of_fault hmeant fun w' hsame => ?_
      unfold State.transferOf at htype ⊢
      simp only [setSetup, Batch.setSetup, ensures_bind, ensures_getState, then_ok,
        State.transferOf, hsame, Transfer.setSetup, if_neg htype]
      rfl
  | batchReleased hmeant hneeds hnone =>
      refine ensures_onBatch_of_fault hmeant fun w' hsame => ?_
      unfold State.transferOf at hneeds
      simp only [resetToggle, Batch.resetToggles, ensures_bind, ensures_getState, then_ok,
        State.transferOf, hsame, if_pos hneeds, ensures_record, hnone, ensures_throw, then_error]

/-! ## Commands -/

/-- In whatever world user code finds itself, and whatever was caught before: no lock is held.  A
command is interrupted only if user code gives up or if the command is one of the three misuses of
batches, and such a misuse is always refused with its fault. -/
theorem Reachable.faults_expected (h : Reachable w) :
    w.Open ∧
      (∀ (limit : Nat) (atHand : Option (Key Batch)) (command : Command),
        (∀ b, atHand = some b → w.Loose b) →
          Ensures (carryOut (player limit) atHand command) w fun r w' =>
            w'.Open ∧
              (∀ fault, r = .error fault →
                fault.Raised ∨ Misuse atHand w.state command fault) ∧
              ∀ fault, Misuse atHand w.state command fault → r = .error fault) ∧
      ∀ (limit : Nat) (name : String) (ending : Batch.Ending),
        Ensures (endBatch name fun b => ending.run (player limit) b) w fun r w' =>
          w'.Open ∧ ∀ fault, r = .error fault → fault.Raised := by
  refine ⟨open_of_changes h.changes, fun limit atHand command hloose => ?_,
    fun limit name ending => ?_⟩
  · have hready : w.Ready (Hands.empty.lendAny atHand) := by
      cases atHand with
      | none => exact h.ready
      | some b => exact h.ready.lend (hloose b rfl)
    have hlent : ∀ b, atHand = some b → (Hands.empty.lendAny atHand).Lent b := by
      rintro b rfl
      exact Hands.MayTouch.lent (by simp [Hands.MayTouch, Hands.empty])
    have hwithin : Hands.empty.Within (Hands.empty.lendAny atHand) := by
      cases atHand with
      | none => exact Hands.empty.within_refl
      | some b => exact Hands.empty.within_lend b
    have horderly := carryOut_orderly (player_fair limit) hready hlent command
    have hmisused : Ensures (carryOut (player limit) atHand command) w fun r _ =>
        ∀ fault, Misuse atHand w.state command fault → r = .error fault :=
      ensures_forall fun fault => ensures_forall fun hmisuse => hmisuse.ensures_carryOut
    refine Ensures.mono (horderly.and hmisused) fun r w' hr => ⟨?_, ?_, hr.2⟩
    · exact open_of_changes (h.changes.trans (hr.1.moves.changes.within hwithin))
    · rintro fault rfl
      exact hr.1.allowed
  · refine Ensures.mono (endBatch_obeys (player_fair limit) h.ready name ending) fun r w' hr => ?_
    refine ⟨open_of_changes (h.changes.trans hr.moves.changes), ?_⟩
    rintro fault rfl
    exact hr.allowed

/-- A bus that is told of a failed batch asks for a reset on its behalf. -/
theorem faults_expected_released :
    ∃ w, Reachable w ∧ w.Loose ⟨0⟩ ∧ Misuse (some ⟨0⟩) w.state (.resetToggle "$") .batchReleased ∧
      Ensures (carryOut (player 1) (some ⟨0⟩) (.resetToggle "$")) w fun r w' =>
        w'.Open ∧ r = .error .batchReleased := by
  have hreachable := (idle_after 1
    [.addBus "hub" (BusPlan.bare Script), .addEndpoint "hub" default "pipe",
      .newBatch "pipe" "transfer", .setScope "transfer" .endpoint,
      .complete "transfer" (.failed .stall) 0, .destroy "transfer"]).reachable_at 2 rfl trivial
  have hreleased : ∀ w, Reachable w → w.Loose ⟨0⟩ →
      Misuse (some ⟨0⟩) w.state (.resetToggle "$") .batchReleased →
        Ensures (carryOut (player 1) (some ⟨0⟩) (.resetToggle "$")) w fun r w' =>
          w'.Open ∧ r = .error .batchReleased := by
    intro w h hloose hmisuse
    refine (h.faults_expected.2.1 1 (some ⟨0⟩) (.resetToggle "$") ?_).mono
      fun r w' hr => ⟨hr.1, hr.2.2 _ hmisuse⟩
    rintro b ⟨⟩
    exact hloose
  refine ⟨_, hreachable, ⟨by decide, by decide⟩, ?_, hreleased _ hreachable ?_ ?_⟩
  · exact .batchReleased (b := ⟨0⟩) (by decide) (by decide) (by decide)
  · exact ⟨by decide, by decide⟩
  · exact .batchReleased (b := ⟨0⟩) (by decide) (by decide) (by decide)

end Session
end UsbTransfer
