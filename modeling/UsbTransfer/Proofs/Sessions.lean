import UsbTransfer.Session.Transcript
import UsbTransfer.Proofs.Fairness

/-!
# Sessions

User code can find itself in two kinds of worlds: between commands from outside, and amid a
command, when an operation in progress hands control to it.  All of these come about by changes
from the world in which nothing has happened, and between commands nothing is left in flight.
-/

namespace UsbTransfer

open Run

namespace Session

/-- The worlds between the commands of sessions.  Commands may end in faults, and each may be
played with another limit. -/
inductive Idle : World → Prop where
  | start : Idle .empty
  | step {w : World} (h : Idle w) (limit : Nat) (command : Command) :
      Idle (step (player limit) command w).2
  | close {w : World} (h : Idle w) (limit : Nat) :
      Idle ((close (player limit)).worldAfter w)

/-- The worlds in which user code can find itself: between commands, or when it gets control from
an operation in progress. -/
inductive Reachable : World → Prop where
  | idle {w : World} (h : Idle w) : Reachable w
  | amid {w : World} {m : Moment} {earlier : List Moment} (h : Idle w)
      (hm : m :: earlier <:+ w.history) (hyields : m.occurrence.Yields) :
      Reachable ⟨m.state, m :: earlier⟩

/-- The world after commands from outside, with so many scripts inside each other at most. -/
def after (limit : Nat) (commands : List Command) : World :=
  commands.foldl (fun w command => (Session.step (player limit) command w).2) .empty

theorem idle_after (limit : Nat) (commands : List Command) : Idle (after limit commands) := by
  have hfold : ∀ (w : World), Idle w →
      Idle (commands.foldl (fun w command => (Session.step (player limit) command w).2) w) := by
    induction commands with
    | nil => exact fun w h => h
    | cons command rest ih => exact fun w h => ih _ (h.step limit command)
  exact hfold .empty .start

variable {play : Player} {hands : Hands} {w : World}

/-! ## The end of a session -/

theorem contain_orderly {m : Run Unit}
    (h : Orderly hands Fault.Raised [] (fun _ => []) m w) :
    Orderly hands Fault.Raised [] (fun _ => []) (contain m) w := by
  unfold Orderly contain
  rw [ensures_bind, ensures_attempt]
  apply Ensures.mono h
  intro r w' hr
  have hmoves := hr.moves
  cases r with
  | ok _ => exact hmoves
  | error fault =>
      have hend : Moves hands [] [] w' (w'.note (.faultAtEnd fault)) :=
        .noteAside .unlocked trivial rfl fun h => h.elim
      exact hmoves.trans hend

theorem forgetHandle_orderly (hplay : play.Fair) (hw : w.Ready hands) (name : String) :
    Orderly hands Fault.Raised [] (fun _ => []) (forgetHandle play name) w := by
  unfold Orderly forgetHandle
  rw [ensures_bind]
  apply Ensures.mono (ensures_takeHandle hw name)
  intro r w₁ hr
  obtain ⟨answer, rfl, hmoves⟩ := hr
  rw [then_ok]
  cases answer with
  | error mistake => exact hmoves
  | ok e =>
      exact (Endpoint.release_orderly hplay (hmoves.ready hw)
        (Moves.spare_pos hmoves)).after hmoves

theorem forgetBatch_orderly (hplay : play.Fair) (hw : w.Ready hands) (name : String) :
    Orderly hands Fault.Raised [] (fun _ => []) (forgetBatch play name) w := by
  unfold Orderly forgetBatch
  rw [ensures_bind]
  apply Ensures.mono (ensures_takeBatch hw name)
  intro r w₁ hr
  obtain ⟨answer, rfl, hmoves, hown⟩ := hr
  rw [then_ok]
  cases answer with
  | error mistake => exact hmoves
  | ok b => exact ((hown b rfl).drop_orderly hplay (hmoves.ready hw)).after hmoves

theorem forgetTable_orderly (hplay : play.Fair) (hw : w.Ready hands) (name : String) :
    Orderly hands Fault.Raised [] (fun _ => []) (forgetTable play name) w := by
  unfold Orderly forgetTable
  simp only [ensures_bind, ensures_getState, then_ok]
  split
  · exact .refl hands w
  · next t hfind =>
      simp only [ensures_bind, ensures_modifyDirectory, then_ok]
      exact (destroyTable_orderly hplay hw hfind).after (forgetTable_moves hw.sound name)

theorem forgetQueue_orderly (hw : w.Ready hands) (name : String) :
    Orderly hands Fault.Raised [] (fun _ => []) (forgetQueue name) w :=
  forgetQueue_moves hw.sound name

theorem releaseEach_orderly {first? : Directory → Option String} {releaseNamed : String → Run Unit}
    (h : ∀ (w : World) (name : String), w.Ready hands →
      Orderly hands Fault.Raised [] (fun _ => []) (releaseNamed name) w)
    (hw : w.Ready hands) (limit : Nat) :
    Orderly hands Fault.Raised [] (fun _ => []) (releaseEach first? releaseNamed limit) w := by
  induction limit generalizing w with
  | zero => exact orderly_pure w rfl
  | succ limit ih =>
      unfold Orderly releaseEach
      simp only [ensures_bind, ensures_getState, then_ok]
      split
      · exact .refl hands w
      · next name _ =>
          exact (contain_orderly (h w name hw)).bind fun _ w' hmoves => ih (hmoves.ready hw)

theorem close_orderly (hplay : play.Fair) (hw : w.Ready hands) :
    Orderly hands Fault.Raised [] (fun _ => []) (close play) w := by
  refine Orderly.bind (releaseEach_orderly (fun w name hw => forgetBatch_orderly hplay hw name)
    hw _) fun _ w₁ h₁ => ?_
  have hw₁ := h₁.ready hw
  refine Orderly.bind (releaseEach_orderly (fun w name hw => forgetHandle_orderly hplay hw name)
    hw₁ _) fun _ w₂ h₂ => ?_
  have hw₂ := h₂.ready hw₁
  refine Orderly.bind (releaseEach_orderly (fun w name hw => forgetTable_orderly hplay hw name)
    hw₂ _) fun _ w₃ h₃ => ?_
  exact releaseEach_orderly (fun w name hw => forgetQueue_orderly hw name) (h₃.ready hw₂) _

/-! ## Between commands -/

theorem ready_empty : World.empty.Ready Hands.empty :=
  ⟨State.sound_empty, Hands.looseIn_empty _⟩

/-- The world after a command from outside. -/
theorem world_step (limit : Nat) (command : Command) (w : World) :
    (step (player limit) command w).2 =
      (settle (carryOut (player limit) none command)).worldAfter w := by
  unfold Session.step Run.worldAfter
  split <;> simp_all

/-- What a command from outside ensures holds after it. -/
theorem after_concat {limit : Nat} {commands : List Command} {command : Command}
    {P : World → Prop}
    (h : Ensures (carryOut (player limit) none command) (after limit commands) fun _ w' => P w') :
    P (after limit (commands ++ [command])) := by
  have hlast : after limit (commands ++ [command]) =
      (settle (carryOut (player limit) none command)).worldAfter (after limit commands) := by
    rw [← world_step, after, List.foldl_append]
    rfl
  rw [hlast]
  exact Ensures.worldAfter ((ensures_settle _ _ _).mpr h)

/-- A command from outside leaves nothing behind. -/
theorem step_moves (hw : w.Ready Hands.empty) (limit : Nat) (command : Command) :
    Moves Hands.empty [] [] w (step (player limit) command w).2 := by
  have hnone : ∀ b, (none : Option (Key Batch)) = some b → Hands.empty.Lent b :=
    by simp
  have hobeys := carryOut_obeys (player_fair limit) hw hnone command
  have hsettled : Ensures (settle (carryOut (player limit) none command)) w
      fun _ w' => Moves Hands.empty [] [] w w' := by
    rw [ensures_settle]
    exact Ensures.mono hobeys fun r w' hr => hr.moves
  rw [world_step]
  exact hsettled.worldAfter

/-- Neither does the end of a session. -/
theorem close_moves (hw : w.Ready Hands.empty) (limit : Nat) :
    Moves Hands.empty [] [] w ((close (player limit)).worldAfter w) :=
  Ensures.worldAfter (Ensures.mono (close_orderly (player_fair limit) hw) fun _ _ hr => hr.moves)

theorem Idle.moves (h : Idle w) : Moves Hands.empty [] [] World.empty w := by
  induction h with
  | start => exact .refl _ _
  | step h limit command ih => exact ih.trans (step_moves (ih.ready ready_empty) limit command)
  | close h limit ih => exact ih.trans (close_moves (ih.ready ready_empty) limit)

/-- A moment noted last, at which user code gets control, shows the world as it is now. -/
theorem eq_of_noted {w' : World} {m : Moment} {earlier : List Moment}
    (hm : m :: earlier <:+ w'.history) (hnew : ¬ m :: earlier <:+ w.history)
    (hyields : m.occurrence.Yields) {o : Occurrence} {s : State}
    (hhistory : w'.history = ⟨o, s⟩ :: w.history) (hlast : o.Yields → s = w'.state) :
    w' = ⟨m.state, m :: earlier⟩ := by
  rw [hhistory] at hm
  rcases List.suffix_cons_iff.mp hm with hm | hm
  · obtain ⟨rfl, rfl⟩ := List.cons.inj hm
    change w' = ⟨s, _⟩
    rw [← hhistory, hlast hyields]
  · exact absurd hm hnew

/-- A change that hands control to user code does so in the end. -/
theorem yields_last {w' : World} (h : Change hands w w') {m : Moment} {earlier : List Moment}
    (hm : m :: earlier <:+ w'.history) (hnew : ¬ m :: earlier <:+ w.history)
    (hyields : m.occurrence.Yields) :
    w' = ⟨m.state, m :: earlier⟩ := by
  cases h with
  | consult | addBus | addTable | addQueue | rename | uninstall | leaveWaker | edit
  | detachHandler | detachData | changeData | keepHandle | takeHandle | lend | unlend
  | nameBatch | unnameBatch => exact absurd hm hnew
  | createEndpoint | release | advanceToggle | wake | build | giveUpEndpoint | handOver
  | attachHandler | attachData =>
      exact eq_of_noted hm hnew hyields rfl fun _ => rfl
  | acquire | setToggle | install | giveUpTable | push | handOut =>
      exact eq_of_noted hm hnew hyields rfl fun h => h.elim
  | note v hfits htouch hend hlast =>
      refine eq_of_noted hm hnew hyields rfl fun h => ?_
      rw [hlast h]
      rfl
  | releaseLast =>
      simp only [World.note_history, World.alter_history] at hm
      rcases List.suffix_cons_iff.mp hm with hm | hm
      · obtain ⟨rfl, rfl⟩ := List.cons.inj hm
        rfl
      · rcases List.suffix_cons_iff.mp hm with hm | hm
        · obtain ⟨rfl, rfl⟩ := List.cons.inj hm
          exact hyields.elim
        · exact absurd hm hnew

/-- Wherever user code gets control, it finds a world that came about by changes. -/
theorem changes_amid {w₀ : World} (h : Changes hands w₀ w) {m : Moment} {earlier : List Moment}
    (hm : m :: earlier <:+ w.history) (hnew : ¬ m :: earlier <:+ w₀.history)
    (hyields : m.occurrence.Yields) :
    Changes hands w₀ ⟨m.state, m :: earlier⟩ := by
  induction h with
  | refl => exact absurd hm hnew
  | @tail w₁ w₂ hbefore hchange ih =>
      by_cases hearly : m :: earlier <:+ w₁.history
      · exact ih hearly
      · rw [← yields_last hchange hm hearly hyields]
        exact Relation.ReflTransGen.tail hbefore hchange

theorem Reachable.changes (h : Reachable w) : Changes Hands.empty World.empty w := by
  cases h with
  | idle h => exact h.moves.changes
  | amid h hm hyields =>
      refine changes_amid h.moves.changes hm (fun hempty => ?_) hyields
      exact absurd (List.suffix_nil.mp hempty) (List.cons_ne_nil _ _)

theorem Reachable.ready (h : Reachable w) : w.Ready Hands.empty :=
  h.changes.ready ready_empty

/-- User code finds itself in the moment that lies so far back, if it got control then. -/
theorem Idle.reachable_at (h : Idle w) (k : Nat) {m : Moment} (hm : w.history[k]? = some m)
    (hyields : m.occurrence.Yields) :
    Reachable ⟨m.state, w.history.drop k⟩ := by
  obtain ⟨hk, rfl⟩ := List.getElem?_eq_some_iff.mp hm
  have hdrop := List.drop_eq_getElem_cons hk
  rw [hdrop]
  exact .amid h (hdrop ▸ List.drop_suffix k w.history) hyields

/-- Between commands no operation in progress is left with anything. -/
theorem Idle.inFlight_eq_nil (h : Idle w) : w.state.inFlight = [] := by
  have hloans : w.state.directory.loans = [] := h.moves.loans
  refine List.eq_nil_iff_forall_not_mem.mpr fun e he => ?_
  have hspare := h.moves.spare e
  have hnone : w.state.stranded = [] := by
    simp [State.stranded, hloans]
  simp only [State.spare, hnone, List.count_nil] at hspare
  have hcount := List.count_pos_iff.mpr he
  have hempty : State.empty.inFlight = [] := rfl
  simp only [World.empty, hempty, List.count_nil] at hspare
  omega

end Session
end UsbTransfer
