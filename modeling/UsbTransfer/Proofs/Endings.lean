import UsbTransfer.Proofs.Steps

/-!
# The course of an end

Every end of a batch takes the same course: after a beginning that depends on the way in which it
ends, the batch is released, loses its handler and then its value, whatever fault strikes on the
way.  The first fault is the one that counts.
-/

namespace UsbTransfer

open Run

namespace Batch

variable {play : Player} {hands : Hands} {w w' : World} {b : Key Batch}

/-- What a batch does that finishes, before it is released: it has toggles reset, and unless that
was interrupted, it delivers its completion whatever came of the reset. -/
inductive Completes (play : Player) (hands : Hands) (b : Key Batch) (w : World) :
    Except Fault Unit → World → Prop where
  | interrupted {fault : Fault} {w₁ : World}
      (hfaults : (resetToggles play b).Faults (w.note (.finishing b)))
      (hreset : Resets hands b (w.note (.finishing b)) (.error fault) w₁) :
      Completes play hands b w (.error fault) w₁
  | reset {r : Except Fault Unit} {w₁ w₂ : World}
      (hreturns : ¬ (resetToggles play b).Faults (w.note (.finishing b)))
      (hreset : Resets hands b (w.note (.finishing b)) (.ok (.ok ())) w₁)
      (hdeliver : Delivers hands b w₁ r w₂) :
      Completes play hands b w r w₂
  | unreset {error : UsbError} {r : Except Fault Unit} {w₁ w₂ : World}
      (hreturns : ¬ (resetToggles play b).Faults (w.note (.finishing b)))
      (hreset : Resets hands b (w.note (.finishing b)) (.ok (.error error)) w₁)
      (hdeliver : Delivers hands b (w₁.note (.resetFailed b error)) r w₂) :
      Completes play hands b w r w₂

/-- The course of an end: after a beginning that depends on how the batch ends, it is released,
loses its handler and then its value, whatever fault strikes on the way.  The first fault counts. -/
inductive Course (play : Player) (hands : Hands) (b : Key Batch)
    (Begins : Except Fault Unit → World → Prop) : Except Fault Unit → World → Prop where
  | intro {r₁ r₂ r₃ r₄ : Except Fault Unit} {w₁ w₂ w₃ w₄ : World} (hbegin : Begins r₁ w₁)
      (hrelease : Releases play hands b w₁ r₂ w₂)
      (hhandler : Sheds hands b w₂ (handlerOf b w₂) r₃ w₃)
      (hdata : Sheds hands b w₃ (dataOf b w₃) r₄ w₄) :
      Course play hands b Begins (settled (settled r₁ r₂) (settled r₃ r₄))
        (w₄.note (.batchEnded b))

/-- The ways in which a batch ends. -/
inductive Ending where
  | finish
  | abort
  | destroy
  | drop
deriving DecidableEq, Repr

/-- Ends a batch in one of the ways. -/
def Ending.run (play : Player) (b : Key Batch) : Ending → Run Unit
  | .finish => Batch.finish play b
  | .abort => Batch.abort play b
  | .destroy => Batch.destroy play b
  | .drop => Batch.drop play b

/-- What comes before the release. -/
def Ending.Begins (ending : Ending) (play : Player) (hands : Hands) (b : Key Batch) (w : World)
    (r : Except Fault Unit) (w' : World) : Prop :=
  match ending with
  | .finish => Completes play hands b w r w'
  | .abort => Completes play hands b (w.alter (·.setTransfer b (w.state.transferOf b).cancel)) r w'
  | .destroy | .drop => r = .ok () ∧ w' = w

theorem Completes.moves {r : Except Fault Unit} (h : Completes play hands b w r w')
    (hw : w.state.Sound) (hb : hands.MayEnd b) :
    Moves hands [] [] w w' := by
  have hfinishing : Moves hands [] [] w (w.note (.finishing b)) :=
    .noteOf (o := .finishing b) trivial rfl hb.mayTouch (.inr hb)
  cases h with
  | interrupted _ hreset => exact hfinishing.trans (hreset.moves hb.mayTouch)
  | reset _ hreset hdeliver =>
      have hbefore := hfinishing.trans (hreset.moves hb.mayTouch)
      exact hbefore.trans (hdeliver.moves (hbefore.changes.sound hw) hb)
  | @unreset error _ _ _ _ hreset hdeliver =>
      have hbefore := (hfinishing.trans (hreset.moves hb.mayTouch)).trans
        (.noteOf (o := .resetFailed b error) trivial rfl hb.mayTouch (.inr hb))
      exact hbefore.trans (hdeliver.moves (hbefore.changes.sound hw) hb)

theorem Completes.rest {r : Except Fault Unit} (h : Completes play hands b w r w')
    (hloose : w.Loose b) :
    (w'.state.batches.get b).endpoint = (w.state.batches.get b).endpoint ∧ w'.Loose b := by
  cases h with
  | interrupted _ hreset =>
      obtain ⟨hsame, hlater⟩ := hreset.aside (hloose.note _)
      exact ⟨congrArg Batch.endpoint hsame, hlater⟩
  | reset _ hreset hdeliver =>
      obtain ⟨hsame, hlater⟩ := hreset.aside (hloose.note _)
      obtain ⟨hendpoint, hlast⟩ := hdeliver.rest hlater
      exact ⟨hendpoint.trans (congrArg Batch.endpoint hsame), hlast⟩
  | unreset _ hreset hdeliver =>
      obtain ⟨hsame, hlater⟩ := hreset.aside (hloose.note _)
      obtain ⟨hendpoint, hlast⟩ := hdeliver.rest (hlater.note _)
      exact ⟨hendpoint.trans (congrArg Batch.endpoint hsame), hlast⟩

theorem Completes.allowed {r : Except Fault Unit} (h : Completes play hands b w r w')
    (he : (w.state.batches.get b).endpoint.isSome) :
    Allowed Fault.Raised r := by
  cases h with
  | interrupted _ hreset => exact hreset.allowed he
  | reset _ _ hdeliver | unreset _ _ hdeliver => exact hdeliver.allowed

/-- Whatever a batch does first, it takes the course of an end after that. -/
theorem ensures_endAfter {body : Run Unit} {Begins : Except Fault Unit → World → Prop}
    (hplay : play.Fair) (hw : w.Ready hands) (hb : hands.MayEnd b)
    (hbody : Ensures body w fun r w₂ =>
      ∃ r₁ w₁ r₂, Begins r₁ w₁ ∧ Moves hands [] [] w w₁ ∧ w₁.Loose b ∧
        ((r = r₁ ∧ w₂ = w₁) ∨ (r₁ = .ok () ∧ r = r₂ ∧ Releases play hands b w₁ r₂ w₂))) :
    Ensures (endAfter play b body) w (Course play hands b Begins) := by
  unfold endAfter
  rw [ensures_ensuring, ensures_ensuring]
  apply Ensures.mono hbody
  intro r w₂ hr
  obtain ⟨r₁, w₁, r₂, hbegin, hbefore, hloose, hcase⟩ := hr
  have hready₁ := hbefore.ready hw
  -- the release that is made in any case does nothing after one that the body made
  have hreleased : Ensures (release play b) w₂ fun r' w₃ =>
      ∃ r₂, Releases play hands b w₁ r₂ w₃ ∧ settled r r' = settled r₁ r₂ := by
    rcases hcase with ⟨rfl, rfl⟩ | ⟨rfl, rfl, hrelease⟩
    · exact Ensures.mono (ensures_release hplay hready₁ hloose hb)
        fun r' w₃ hr' => ⟨r', hr', rfl⟩
    · have hready₂ := (hrelease.moves hready₁.sound hloose hb).ready hready₁
      obtain ⟨hnone, hloose₂⟩ := hrelease.rest hloose
      apply Ensures.mono (ensures_release hplay hready₂ hloose₂ hb)
      intro r' w₃ hr'
      cases hr' with
      | before => exact ⟨r, hrelease, by cases r <;> rfl⟩
      | interrupted he | refused he | done he => simp [hnone] at he
  apply Ensures.mono hreleased
  intro r' w₃ hr'
  obtain ⟨r₂, hrelease, hsettled⟩ := hr'
  have hready₃ := (hrelease.moves hready₁.sound hloose hb).ready hready₁
  rw [ensures_ensuring]
  apply Ensures.mono (ensures_destroyBelongings hplay hready₃ (hrelease.rest hloose).2
    hb.mayTouch)
  intro r'' w₄ hr''
  obtain ⟨r₃, w₃', r₄, hhandler, hdata, rfl⟩ := hr''
  rw [ensures_record, hsettled]
  have hlast : settled (settled r₃ r₄) (.ok ()) = settled r₃ r₄ := by
    cases settled r₃ r₄ <;> rfl
  rw [hlast]
  exact .intro hbegin hrelease hhandler hdata

/-- A batch that has done what comes before hands its completion over and is released then. -/
theorem ensures_deliver_release {Begins : Except Fault Unit → World → Prop} {w₀ : World}
    (hplay : play.Fair) (hready : w₀.Ready hands) (hbefore : Moves hands [] [] w₀ w)
    (hloose : w.Loose b) (hb : hands.MayEnd b)
    (hbegins : ∀ r w₁, Delivers hands b w r w₁ → Moves hands [] [] w₀ w₁ → w₁.Loose b →
      Begins r w₁) :
    Ensures (deliver play b >>= fun _ => release play b) w fun r w₂ =>
      ∃ r₁ w₁ r₂, Begins r₁ w₁ ∧ Moves hands [] [] w₀ w₁ ∧ w₁.Loose b ∧
        ((r = r₁ ∧ w₂ = w₁) ∨ (r₁ = .ok () ∧ r = r₂ ∧ Releases play hands b w₁ r₂ w₂)) := by
  have hw := hbefore.ready hready
  rw [ensures_bind]
  apply Ensures.mono (ensures_deliver hplay hw hloose hb)
  intro r₁ w₁ hdeliver
  have hmoves := hbefore.trans (hdeliver.moves hw.sound hb)
  have hloose₁ := (hdeliver.rest hloose).2
  have hbegin := hbegins r₁ w₁ hdeliver hmoves hloose₁
  cases r₁ with
  | error fault => exact ⟨_, w₁, .ok (), hbegin, hmoves, hloose₁, .inl ⟨rfl, rfl⟩⟩
  | ok _ =>
      rw [then_ok]
      apply Ensures.mono (ensures_release hplay (hmoves.ready hready) hloose₁ hb)
      intro r₂ w₂ hrelease
      exact ⟨_, w₁, r₂, hbegin, hmoves, hloose₁, .inr ⟨rfl, rfl, hrelease⟩⟩

/-- A failed reset is recorded before the completion is delivered. -/
def afterReset (b : Key Batch) (w : World) : Except UsbError Unit → World
  | .ok _ => w
  | .error error => w.note (.resetFailed b error)

/-- A batch that finishes begins with whatever its reset comes to, and with the delivery after
that unless the reset was interrupted. -/
theorem ensures_finish_of_reset {Begins : Except Fault Unit → World → Prop}
    {P : Except Fault (Except UsbError Unit) → World → Prop} (hplay : play.Fair)
    (hw : w.Ready hands) (hloose : w.Loose b) (hb : hands.MayEnd b)
    (hP : Ensures (resetToggles play b) (w.note (.finishing b)) P)
    (hinterrupted : ∀ fault w₁, P (.error fault) w₁ →
      Resets hands b (w.note (.finishing b)) (.error fault) w₁ → Begins (.error fault) w₁)
    (hbegins : ∀ outcome w₁ r w₂, P (.ok outcome) w₁ →
      Resets hands b (w.note (.finishing b)) (.ok outcome) w₁ →
        Delivers hands b (afterReset b w₁ outcome) r w₂ → Moves hands [] [] w w₂ → w₂.Loose b →
          Begins r w₂) :
    Ensures (finish play b) w (Course play hands b Begins) := by
  refine ensures_endAfter hplay hw hb ?_
  simp only [ensures_bind, ensures_record, then_ok]
  apply Ensures.mono ((ensures_resetToggles hplay (hw.note _) (hloose.note _)).and hP)
  rintro r w₁ ⟨hreset, hP₁⟩
  have hfinishing : Moves hands [] [] w (w.note (.finishing b)) :=
    .noteOf (o := .finishing b) trivial rfl hb.mayTouch (.inr hb)
  have hmoves₁ := hfinishing.trans (hreset.moves hb.mayTouch)
  have hloose₁ := (hreset.aside (hloose.note _)).2
  cases r with
  | error fault =>
      exact ⟨_, w₁, .ok (), hinterrupted fault w₁ hP₁ hreset, hmoves₁, hloose₁, .inl ⟨rfl, rfl⟩⟩
  | ok outcome =>
      have hdelivers := fun r w₂ => hbegins outcome w₁ r w₂ hP₁ hreset
      cases outcome with
      | ok _ => exact ensures_deliver_release hplay hw hmoves₁ hloose₁ hb hdelivers
      | error error =>
          have hfailed : Moves hands [] [] w₁ (w₁.note (.resetFailed b error)) :=
            .noteOf (o := .resetFailed b error) trivial rfl hb.mayTouch (.inr hb)
          simp only [then_ok, ensures_bind, ensures_record]
          exact (ensures_bind _ _ _ _).mp (ensures_deliver_release hplay hw
            (hmoves₁.trans hfailed) (hloose₁.note _) hb hdelivers)

theorem ensures_finish (hplay : play.Fair) (hw : w.Ready hands) (hloose : w.Loose b)
    (hb : hands.MayEnd b) :
    Ensures (finish play b) w (Course play hands b (Completes play hands b w)) := by
  refine ensures_finish_of_reset hplay hw hloose hb (ensures_faults _ _) ?_ ?_
  · intro fault w₁ hfaults hreset
    exact .interrupted (hfaults.mp ⟨fault, rfl⟩) hreset
  · intro outcome w₁ r w₂ hfaults hreset hdeliver _ _
    have hreturns : ¬ (resetToggles play b).Faults (w.note (.finishing b)) :=
      fun h => absurd (hfaults.mpr h) (by simp)
    cases outcome with
    | ok _ => exact .reset hreturns hreset hdeliver
    | error error => exact .unreset hreturns hreset hdeliver

theorem batch_cancelled (hloose : w.Loose b) :
    (w.alter (·.setTransfer b (w.state.transferOf b).cancel)).state.batches.get b =
      { w.state.batches.get b with transfer := (w.state.transferOf b).cancel } :=
  Arena.get_modify_self _ _ _ hloose.1

theorem loose_cancelled (hloose : w.Loose b) :
    (w.alter (·.setTransfer b (w.state.transferOf b).cancel)).Loose b :=
  hloose.alter (by simp [State.setTransfer]) rfl

/-- Every end takes its course. -/
theorem ensures_ending (hplay : play.Fair) (hw : w.Ready hands) (hloose : w.Loose b)
    (hb : hands.MayEnd b) (ending : Ending) :
    Ensures (ending.run play b) w (Course play hands b (ending.Begins play hands b w)) := by
  cases ending with
  | finish => exact ensures_finish hplay hw hloose hb
  | abort =>
      have hcancel : Moves hands [] [] w
          (w.alter (·.setTransfer b (w.state.transferOf b).cancel)) :=
        .edit hb.mayTouch (.cancel _)
      simp only [Ending.run, abort, ensures_bind, ensures_modifyTransfer, then_ok]
      exact ensures_finish hplay (hcancel.ready hw) (loose_cancelled hloose) hb
  | destroy =>
      refine ensures_endAfter hplay hw hb ?_
      apply Ensures.mono (ensures_release hplay hw hloose hb)
      intro r₂ w₂ hrelease
      exact ⟨.ok (), w, r₂, ⟨rfl, rfl⟩, .refl hands w, hloose, .inr ⟨rfl, rfl, hrelease⟩⟩
  | drop =>
      refine ensures_endAfter hplay hw hb ?_
      exact ⟨.ok (), w, .ok (), ⟨rfl, rfl⟩, .refl hands w, hloose, .inl ⟨rfl, rfl⟩⟩

theorem Ending.Begins.moves {ending : Ending} {r : Except Fault Unit}
    (h : ending.Begins play hands b w r w') (hw : w.state.Sound) (hb : hands.MayEnd b)
    (hloose : w.Loose b) :
    Moves hands [] [] w w' ∧
      (w'.state.batches.get b).endpoint = (w.state.batches.get b).endpoint ∧ w'.Loose b := by
  cases ending with
  | finish => exact ⟨Completes.moves h hw hb, Completes.rest h hloose⟩
  | abort =>
      have hcancel : Moves hands [] [] w
          (w.alter (·.setTransfer b (w.state.transferOf b).cancel)) :=
        .edit hb.mayTouch (.cancel _)
      obtain ⟨hendpoint, hlater⟩ := Completes.rest h (loose_cancelled hloose)
      rw [batch_cancelled hloose] at hendpoint
      exact ⟨hcancel.trans (Completes.moves h (hcancel.changes.sound hw) hb), hendpoint, hlater⟩
  | destroy | drop =>
      obtain ⟨-, rfl⟩ := h
      exact ⟨.refl hands w', rfl, hloose⟩

theorem Ending.Begins.allowed {ending : Ending} {r : Except Fault Unit}
    (h : ending.Begins play hands b w r w') (he : (w.state.batches.get b).endpoint.isSome) :
    Allowed Fault.Raised r := by
  cases ending with
  | finish => exact Completes.allowed h he
  | abort =>
      refine Completes.allowed h ?_
      have hkept := w.state.batches.apply_get_modify b b
        (fun batch => { batch with transfer := (w.state.transferOf b).cancel })
        Batch.endpoint fun _ => rfl
      simp only [World.alter_state, State.setTransfer]
      rw [hkept]
      exact he
  | destroy | drop =>
      obtain ⟨rfl, -⟩ := h
      trivial

/-- After its beginning an end is in balance. -/
theorem Course.after {Begins : Except Fault Unit → World → Prop} {r : Except Fault Unit}
    (h : Course play hands b Begins r w') (hw : w.Ready hands) (hb : hands.MayEnd b)
    (hbegins : ∀ r w₁, Begins r w₁ → Moves hands [] [] w w₁ ∧ w₁.Loose b) :
    ∃ r₁ w₁, Begins r₁ w₁ ∧ Moves hands [] [] w₁ w' := by
  obtain @⟨r₁, _, _, _, w₁, _, _, _, hbegin, hrelease, hhandler, hdata⟩ := h
  obtain ⟨hbefore, hloose₁⟩ := hbegins r₁ w₁ hbegin
  have hready₁ := hbefore.ready hw
  have hreleased := hrelease.moves hready₁.sound hloose₁ hb
  have hshed := hreleased.trans (hhandler.moves (hreleased.ready hready₁).sound hb.mayTouch)
  have hlast := hshed.trans (hdata.moves (hshed.ready hready₁).sound hb.mayTouch)
  exact ⟨r₁, w₁, hbegin,
    hlast.trans (.noteOf (o := .batchEnded b) trivial rfl hb.mayTouch (.inr hb))⟩

theorem Course.moves {ending : Ending} {r : Except Fault Unit}
    (h : Course play hands b (ending.Begins play hands b w) r w') (hw : w.Ready hands)
    (hb : hands.MayEnd b) (hloose : w.Loose b) :
    Moves hands [] [] w w' := by
  have hbegins : ∀ r w₁, ending.Begins play hands b w r w₁ →
      Moves hands [] [] w w₁ ∧ w₁.Loose b := fun r w₁ hbegin =>
    have hmoves := hbegin.moves hw.sound hb hloose
    ⟨hmoves.1, hmoves.2.2⟩
  obtain ⟨r₁, w₁, hbegin, hlater⟩ := h.after hw hb hbegins
  exact (hbegins r₁ w₁ hbegin).1.trans hlater

/-- Only user code can interrupt an end. -/
theorem Course.allowed {ending : Ending} {r : Except Fault Unit}
    (h : Course play hands b (ending.Begins play hands b w) r w')
    (he : (w.state.batches.get b).endpoint.isSome) :
    Allowed Fault.Raised r := by
  obtain ⟨hbegin, hrelease, hhandler, hdata⟩ := h
  exact ((hbegin.allowed he).settled hrelease.allowed).settled
    (hhandler.allowed.settled hdata.allowed)

/-- An end leaves nothing behind. -/
theorem ending_orderly (hplay : play.Fair) (hw : w.Ready hands) (hloose : w.Loose b)
    (hb : hands.MayEnd b) (he : (w.state.batches.get b).endpoint.isSome) (ending : Ending) :
    Orderly hands Fault.Raised [] (fun _ => []) (ending.run play b) w := by
  apply Ensures.mono (ensures_ending hplay hw hloose hb ending)
  intro r w' hr
  exact .of_moves (hr.moves hw hb hloose) (hr.allowed he)

end Batch

end UsbTransfer
