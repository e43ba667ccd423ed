import UsbTransfer.Proofs.ToggleSteps
import UsbTransfer.Proofs.Walks.Sessions

/-!
# Toggles in sessions

The library does nothing to toggles but what it is asked for, apart from what the scripts do that
its player plays: endpoints are created, their toggles are set or advanced, and tables reset them.
So the toggles of endpoints are what their events make of DATA0, in every world of every session
and at every moment on record.
-/

namespace UsbTransfer

open Run

variable {α : Type} {A : Repertoire} {P : ToggleEvent → Prop} {play : Player} {w w' : World}

/-! ## Steps aside of toggles -/

namespace State.SameToggles

variable {s s' : State}

theorem of_endpoints (h : s'.endpoints = s.endpoints) : s.SameToggles s' where
  size := by rw [h]
  toggles := fun e => by rw [toggleOf, h, toggleOf]

end State.SameToggles

theorem Occurrence.Incidental.toggleEvent? {o : Occurrence} (h : o.Incidental) :
    o.toggleEvent? = none := by
  cases o <;> first | rfl | exact h.elim

theorem Occurrence.toggleEvent?_of_asked {o : Occurrence} {bus : Key Bus}
    (h : o.asked? = some bus) :
    o.toggleEvent? = none := by
  cases o <;> first | rfl | cases h

namespace ToggleStep

/-- What changes no endpoint and is not recorded is no event. -/
theorem aside {f : State → State} (h : (f w.state).endpoints = w.state.endpoints) :
    ToggleStep P w (w.alter f) :=
  .alter (.of_endpoints h)

theorem passesQueues : PassesQueues (ToggleStep P) where
  alter := fun h => .aside (by rw [h])
  pushed := fun _ _ => .note rfl
  woken := fun _ _ => .note rfl
  handedOut := fun _ _ => .note rfl

theorem of_libraryStep (h : LibraryStep A P w w') : Relation.ReflTransGen (ToggleStep P) w w' := by
  cases h with
  | aside haside => exact .single (.alter ⟨haside.size, haside.toggles⟩)
  | note hincidental => exact .single (.note hincidental.toggleEvent?)
  | createEndpoint bus descriptor hkind => exact .single (.create bus descriptor hkind)
  | setToggle hkind => exact .single (.set hkind)
  | advanceToggle hkind => exact .single (.advance hkind)
  | resetToggles hreached hkind => exact .single (.reset hreached hkind)
  | call hasked =>
      exact .head (.aside rfl) (.single (.note (Occurrence.toggleEvent?_of_asked hasked)))
  | install | giveUpTable | uninstallDevice => exact .head (.note rfl) (.single (.aside rfl))
  | uninstall target hslot =>
      obtain ⟨_, -, rfl⟩ := State.uninstall?_eq_some hslot
      exact .head (.note rfl) (.single (.aside rfl))
  | addBus | addTable | addQueue | addWaker | race => exact .single (.aside rfl)
  | arrive q c => exact passesQueues.arrived q c
  | hand => exact passesQueues.handed _ _ _
  | wait => exact .head (.aside rfl) (.single (.note rfl))

theorem of_batchStep (h : BatchStep A w w') : Relation.ReflTransGen (ToggleStep P) w w' := by
  cases h with
  | rename | edit | detach => exact .single (.aside rfl)
  | farewell | giveUp | attach => exact .head (.aside rfl) (.single (.note rfl))
  | invoke | stick | perish | finish => exact .single (.note rfl)
  | pass => exact .head (.aside rfl) (.head (.note rfl) (passesQueues.arrived _ _))

theorem of_dataStep {b : Key Batch} (h : DataStep b w w') :
    Relation.ReflTransGen (ToggleStep P) w w' := by
  cases h with
  | detach | attach | replace => exact .single (.aside rfl)
  | noteAttached | noteTaken | noteDestroyed => exact .single (.note rfl)

end ToggleStep

/-! ## Operations -/

/-- Whatever its outcome is, the operation brings about no events but those of a kind. -/
abbrev MakesOnly {α : Type} (P : ToggleEvent → Prop) (m : Run α) : Prop :=
  Follows (ToggleStep P) m

/-- All scripts bring about no events but those of a kind. -/
def Player.MakesOnly (P : ToggleEvent → Prop) (play : Player) : Prop :=
  ∀ atHand script, UsbTransfer.MakesOnly P (play atHand script)

theorem Run.Follows.makesOnly_mono {Q : ToggleEvent → Prop} {m : Run α} (h : MakesOnly P m)
    (hPQ : ∀ event, P event → Q event) :
    MakesOnly Q m :=
  fun w => Ensures.mono (h w) fun _ _ hr =>
    Relation.ReflTransGen.mono (fun _ _ => ToggleStep.mono hPQ) _ _ hr

theorem Player.MakesOnly.mono {Q : ToggleEvent → Prop} (h : play.MakesOnly P)
    (hPQ : ∀ event, P event → Q event) :
    play.MakesOnly Q :=
  fun atHand script => (h atHand script).makesOnly_mono hPQ

/-- Apart from the events of scripts there are only those that the library is asked for. -/
theorem Player.GoesBy.makesOnly_walk (hplay : play.GoesBy (ToggleStep P) .all) :
    SessionWalk (ToggleStep P) .all P play :=
  BatchWalk.session
    { step := ToggleStep.of_libraryStep
      known := fun h w => h w (Repertoire.knows_all w.state)
      run := hplay.run none
      batchStep := ToggleStep.of_batchStep
      runHaving := hplay.run _ }
    (.head (.aside rfl) (.single (.note rfl))) ToggleStep.of_dataStep

theorem Player.MakesOnly.walk (hplay : play.MakesOnly P) : SessionWalk (ToggleStep P) .all P play :=
  Player.GoesBy.makesOnly_walk fun atHand script _ => hplay atHand script

namespace Session

/-- However many scripts may run inside each other, all that they do to toggles is an event. -/
theorem makesOnly_player (limit : Nat) : (player limit).MakesOnly AnyToggleEvent :=
  fun atHand script =>
    player_goesBy (fun _ hplay => hplay.makesOnly_walk) limit atHand script fun _ _ => trivial

/-- Sessions go by events of toggles, and by steps that are no events. -/
theorem Idle.toggleSteps (h : Idle w) :
    Relation.ReflTransGen (ToggleStep AnyToggleEvent) .empty w :=
  h.with_all.follows fun _ hplay => hplay.makesOnly_walk

/-! ## What the history tells -/

theorem Idle.replayedThroughout (h : Idle w) : w.ReplayedThroughout := by
  refine kept_of_steps (fun _ _ => ToggleStep.replayedThroughout) h.toggleSteps ⟨fun e he => ?_, ?_⟩
  · exact absurd he (Nat.not_lt_zero _)
  · exact fun hm => by simp [World.empty] at hm

theorem Idle.resetsHeld (h : Idle w) : w.ResetsHeld :=
  kept_of_steps (fun _ _ => ToggleStep.resetsHeld) h.toggleSteps fun _ _ _ _ hm => by
    simp [World.empty] at hm

/-- In a world that user code finds, the toggles were at every moment what the events made of
DATA0. -/
theorem Reachable.replayedThroughout (h : Reachable w) : w.ReplayedThroughout := by
  cases h with
  | idle h => exact h.replayedThroughout
  | amid h hm _ =>
      exact ⟨h.replayedThroughout.moments hm,
        fun hm' => h.replayedThroughout.moments (hm'.trans hm)⟩

theorem Reachable.resetsHeld (h : Reachable w) : w.ResetsHeld := by
  cases h with
  | idle h => exact h.resetsHeld
  | amid h hm _ => exact fun t es s earlier hm' => h.resetsHeld t es s earlier (hm'.trans hm)

end Session
end UsbTransfer
