import UsbTransfer.Ownership
import UsbTransfer.Proofs.Balances

/-!
# Orderly operations

An operation is orderly when it disposes of all that it is given and hands over what it says,
whatever user code does meanwhile; when it ends in a fault, it hands over nothing.  Such a fault
comes from outside: user code gave up, or an operation was used against its contract.  None of
those that would betray an error of the library occurs.

A player is fair when the scripts that it plays are orderly.
-/

namespace UsbTransfer

namespace Fault

/-- User code gave up. -/
def Raised (fault : Fault) : Prop :=
  ∃ message, fault = .raised message

/-- User code gave up, or used an operation against its contract. -/
def External : Fault → Prop
  | .raised _ | .scheduledTwice _ | .setupWithoutControl _ | .batchReleased => True
  | .takenAfterRelease | .releasedTwice | .slotVacant | .lockHeld | .lockPoisoned => False

theorem Raised.external {fault : Fault} (h : fault.Raised) : fault.External := by
  obtain ⟨message, rfl⟩ := h
  trivial

end Fault

namespace Run

variable {α β : Type}

/-- A fault, if there is one, is an allowed one. -/
def Allowed (P : Fault → Prop) : Except Fault α → Prop
  | .ok _ => True
  | .error fault => P fault

theorem Allowed.settled {P : Fault → Prop} {r : Except Fault α} {r' : Except Fault Unit}
    (h : Allowed P r) (h' : Allowed P r') :
    Allowed P (settled r r') := by
  cases r with
  | error fault => simpa using h
  | ok a =>
      cases r' with
      | ok _ => trivial
      | error fault => exact h'

/-- What is to be accounted for after an operation that started in `w`. -/
def Account (hands : Hands) (P : Fault → Prop) (give : List Item) (take : α → List Item)
    (w : World) : Except Fault α → World → Prop
  | .ok a, w' => Moves hands give (take a) w w'
  | .error fault, w' => Moves hands give [] w w' ∧ P fault

@[simp]
theorem account_ok {hands : Hands} {P : Fault → Prop} {give : List Item} {take : α → List Item}
    {w w' : World} {a : α} :
    Account hands P give take w (.ok a) w' ↔ Moves hands give (take a) w w' :=
  Iff.rfl

@[simp]
theorem account_error {hands : Hands} {P : Fault → Prop} {give : List Item}
    {take : α → List Item} {w w' : World} {fault : Fault} :
    Account hands P give take w (.error fault) w' ↔ Moves hands give [] w w' ∧ P fault :=
  Iff.rfl

/-- However the operation ends, it disposes of what it is given. -/
def Orderly (hands : Hands) (P : Fault → Prop) (give : List Item) (take : α → List Item)
    (m : Run α) (w : World) : Prop :=
  Ensures m w (Account hands P give take w)

section Rules

variable {hands : Hands} {P : Fault → Prop} {give mid : List Item} {take : α → List Item}
  {w w' : World}

/-- Changes made before an operation count for it. -/
theorem Account.after {r : Except Fault α} {w'' : World} (hmoves : Moves hands give mid w w')
    (h : Account hands P mid take w' r w'') :
    Account hands P give take w r w'' := by
  cases r with
  | ok a => exact hmoves.cancel h
  | error fault => exact ⟨hmoves.cancel h.1, h.2⟩

theorem Account.weaken {R : Fault → Prop} {others : Hands} {r : Except Fault α}
    (h : Account others P give take w r w') (hwithin : hands.Within others)
    (hPR : ∀ fault, P fault → R fault) :
    Account hands R give take w r w' := by
  cases r with
  | ok a => exact h.within hwithin
  | error fault => exact ⟨h.1.within hwithin, hPR _ h.2⟩

/-- Without anything to hand over, both outcomes are accounted for in the same way. -/
theorem Account.moves {r : Except Fault α} (h : Account hands P give (fun _ => []) w r w') :
    Moves hands give [] w w' := by
  cases r with
  | ok a => exact h
  | error fault => exact h.1

theorem Account.allowed {r : Except Fault α} (h : Account hands P give take w r w') :
    Allowed P r := by
  cases r with
  | ok a => trivial
  | error fault => exact h.2

theorem Account.of_moves {r : Except Fault α} (h : Moves hands give [] w w') (hr : Allowed P r) :
    Account hands P give (fun _ => []) w r w' := by
  cases r with
  | ok a => exact h
  | error fault => exact ⟨h, hr⟩

theorem Orderly.after {m : Run α} (hmoves : Moves hands give mid w w')
    (h : Orderly hands P mid take m w') :
    Ensures m w' (Account hands P give take w) :=
  Ensures.mono h fun _ _ hr => hr.after hmoves

theorem Orderly.weaken {R : Fault → Prop} {others : Hands} {m : Run α}
    (h : Orderly others P give take m w) (hwithin : hands.Within others)
    (hPR : ∀ fault, P fault → R fault) :
    Orderly hands R give take m w :=
  Ensures.mono h fun _ _ hr => hr.weaken hwithin hPR

theorem orderly_pure {a : α} (w : World) (htake : take a = []) :
    Orderly hands P [] take (pure a) w := by
  unfold Orderly
  rw [ensures_pure, account_ok, htake]
  exact .refl hands w

/-- What the first part hands over, the second one disposes of. -/
theorem Orderly.bind {m : Run α} {f : α → Run β} {take' : β → List Item}
    (h : Orderly hands P give take m w)
    (hf : ∀ a w', Moves hands give (take a) w w' → Orderly hands P (take a) take' (f a) w') :
    Orderly hands P give take' (m >>= f) w := by
  unfold Orderly
  rw [ensures_bind]
  apply Ensures.mono h
  intro r w' hr
  cases r with
  | ok a => exact (hf a w' hr).after hr
  | error fault => exact hr

/-- Two parts of which the second one runs in any case. -/
theorem Orderly.ensuring {m : Run α} {after : Run Unit} {give' : List Item}
    (h : Orderly hands P give (fun _ => []) m w)
    (hafter : ∀ w', Moves hands give [] w w' →
      Orderly hands P give' (fun _ => []) after w') :
    Orderly hands P (give ++ give') (fun _ => []) (ensuring m after) w := by
  unfold Orderly
  rw [ensures_ensuring]
  apply Ensures.mono h
  intro r w' hr
  apply Ensures.mono (hafter w' hr.moves)
  intro r' w'' hr'
  have hboth : Moves hands (give ++ give') [] w w'' := hr.moves.trans hr'.moves
  cases r with
  | error fault =>
      rw [settled_error]
      exact ⟨hboth, hr.2⟩
  | ok a =>
      cases r' with
      | ok _ => exact hboth
      | error fault => exact ⟨hboth, hr'.2⟩

end Rules

end Run

open Run

/-- What a player plays is orderly, whoever has batches in hands. -/
def Player.Fair (play : Player) : Prop :=
  ∀ (hands : Hands) (atHand : Option (Key Batch)) (script : Script) (w : World),
    w.Ready hands → (∀ b, atHand = some b → hands.MayTouch b ∧ w.Loose b) →
      Orderly (hands.lendAny atHand) Fault.Raised [] (fun _ => []) (play atHand script) w

namespace Player.Fair

variable {play : Player} {hands : Hands} {w : World}

theorem run (hplay : play.Fair) (hw : w.Ready hands) {atHand : Option (Key Batch)}
    (hatHand : ∀ b, atHand = some b → hands.MayTouch b ∧ w.Loose b) (script : Option Script) :
    Orderly (hands.lendAny atHand) Fault.Raised [] (fun _ => []) (play.run atHand script) w := by
  cases script with
  | none => exact orderly_pure w rfl
  | some script => exact hplay hands atHand script w hw hatHand

/-- A script without a batch at hand. -/
theorem run_none (hplay : play.Fair) (hw : w.Ready hands) (script : Option Script) :
    Orderly hands Fault.Raised [] (fun _ => []) (play.run none script) w :=
  hplay.run hw (fun b h => absurd (h : none = some b) (Option.some_ne_none b).symm) script

/-- A script with a batch at hand. -/
theorem run_some (hplay : play.Fair) (hw : w.Ready hands) {b : Key Batch}
    (hb : hands.MayTouch b) (hloose : w.Loose b) (script : Option Script) :
    Orderly (hands.lend b) Fault.Raised [] (fun _ => []) (play.run (some b) script) w := by
  refine hplay.run hw (fun b' h => ?_) script
  obtain rfl := Option.some.inj h
  exact ⟨hb, hloose⟩

end Player.Fair

end UsbTransfer
