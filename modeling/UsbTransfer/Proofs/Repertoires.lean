import UsbTransfer.Session.CarryOut

/-!
# Repertoires

Commands bring scripts along: those of the hooks of a bus, of a handler, of a waker.  A repertoire
is closed under that, so that a session to which only commands of a repertoire are given plays no
others.  The repertoire of all commands is one, and so are the commands that one context can carry
out alone.
-/

namespace UsbTransfer

/-- The scripts of the behaviours to come. -/
def Schedule.scripts {Reply : Type} (s : Schedule (Hook Script Reply)) : List Script :=
  s.behaviours.filterMap (·.code)

theorem Schedule.mem_scripts {Reply : Type} {s : Schedule (Hook Script Reply)}
    {hook : Hook Script Reply} {script : Script} (hcurrent : s.current? = some hook)
    (hcode : hook.code = some script) :
    script ∈ s.scripts :=
  List.mem_filterMap.mpr ⟨hook, List.mem_of_head? hcurrent, hcode⟩

theorem Schedule.scripts_advance_subset {Reply : Type} (s : Schedule (Hook Script Reply)) :
    s.advance.scripts ⊆ s.scripts := by
  unfold Schedule.advance Schedule.scripts
  split
  · next first next rest h =>
      rw [h]
      exact List.filterMap_subset _ (List.subset_cons_self first (next :: rest))
  · exact List.Subset.refl _

/-- The scripts of the hooks of a bus. -/
def BusPlan.scripts (plan : BusPlan Script) : List Script :=
  plan.batchCreate.scripts ++ plan.batchDestroy.scripts ++ plan.toggleReset.scripts ++
    plan.endpointDestroy.scripts

theorem BusPlan.mem_scripts {plan : BusPlan Script} {script : Script} :
    script ∈ plan.scripts ↔ script ∈ plan.batchCreate.scripts ∨
      script ∈ plan.batchDestroy.scripts ∨ script ∈ plan.toggleReset.scripts ∨
        script ∈ plan.endpointDestroy.scripts := by
  simp only [BusPlan.scripts, List.mem_append, or_assoc]

theorem BusPlan.scripts_subset {plan plan' : BusPlan Script}
    (hcreate : plan'.batchCreate.scripts ⊆ plan.batchCreate.scripts)
    (hdestroy : plan'.batchDestroy.scripts ⊆ plan.batchDestroy.scripts)
    (hreset : plan'.toggleReset.scripts ⊆ plan.toggleReset.scripts)
    (hfarewell : plan'.endpointDestroy.scripts ⊆ plan.endpointDestroy.scripts) :
    plan'.scripts ⊆ plan.scripts := by
  intro script h
  rw [BusPlan.mem_scripts] at h ⊢
  exact h.imp (hcreate ·) (Or.imp (hdestroy ·) (Or.imp (hreset ·) (hfarewell ·)))

/-- The script that a handler runs. -/
def HandlerAction.code? : HandlerAction → Option Script
  | .run _ code _ => code
  | .forward _ => none

/-- The scripts that a command brings along. -/
def Command.scripts : Command → List Script
  | .addBus _ plan => plan.scripts
  | .onComplete _ handler => handler.code.toList
  | .addWaker _ code => code.toList
  | _ => []

/-- A stock of commands to which belongs whatever its commands bring along. -/
structure Repertoire where
  Has : Command → Prop
  closed : ∀ {command}, Has command → ∀ script ∈ command.scripts, ∀ inner ∈ script, Has inner

/-- One context can carry out the command, and whatever the command brings along. -/
inductive Command.Alone : Command → Prop where
  | intro {command : Command}
      (hrace : ∀ queue route pushed, command ≠ .pollRacing queue route pushed)
      (hscripts : ∀ script ∈ command.scripts, ∀ inner ∈ script, Alone inner) :
      Alone command

/-- A command without scripts can be carried out alone, unless it is a race itself. -/
theorem Command.alone_of_scripts_eq_nil {command : Command}
    (hrace : ∀ queue route pushed, command ≠ .pollRacing queue route pushed)
    (hscripts : command.scripts = []) :
    Command.Alone command := by
  refine .intro hrace fun script h => ?_
  rw [hscripts] at h
  cases h

namespace Repertoire

/-- All commands. -/
def all : Repertoire := ⟨fun _ => True, fun _ _ _ _ _ => trivial⟩

/-- The commands for which no second context is needed. -/
def alone : Repertoire where
  Has := Command.Alone
  closed := by
    intro command h
    cases h with
    | intro _ hscripts => exact hscripts

/-- All commands of the script belong to the repertoire. -/
def Plays (A : Repertoire) (script : Script) : Prop :=
  ∀ command ∈ script, A.Has command

/-- All commands of the script belong to the repertoire, if there is a script. -/
def PlaysAny (A : Repertoire) (code : Option Script) : Prop :=
  ∀ script, code = some script → A.Plays script

theorem playsAny_none (A : Repertoire) : A.PlaysAny none := by
  intro script h
  cases h

/-- All scripts that are laid down in the state belong to the repertoire. -/
structure Knows (A : Repertoire) (s : State) : Prop where
  plans : ∀ bus, ∀ script ∈ (s.buses.get bus).plan.scripts, A.Plays script
  handlers : ∀ b handler, (s.batches.get b).handler = some handler →
    A.PlaysAny handler.action.code?
  queues : ∀ q waker, (s.queues.get q).waker = some waker → A.PlaysAny waker.code
  wakers : ∀ waker ∈ s.directory.wakers.values, A.PlaysAny waker.code

theorem knows_all (s : State) : all.Knows s where
  plans := fun _ _ _ _ _ => trivial
  handlers := fun _ _ _ _ _ _ _ => trivial
  queues := fun _ _ _ _ _ _ _ => trivial
  wakers := fun _ _ _ _ _ _ => trivial

/-- Besides, the queues of the state are unlocked. -/
structure Covers (A : Repertoire) (s : State) : Prop extends Knows A s where
  unlocked : ∀ q, (s.queues.get q).lock = .free

theorem covers_empty (A : Repertoire) : A.Covers .empty where
  plans := fun _ _ h => absurd h List.not_mem_nil
  handlers := by
    intro b handler h
    cases h
  queues := by
    intro q waker h
    cases h
  wakers := fun _ h => absurd h List.not_mem_nil
  unlocked := fun _ => rfl

end Repertoire

end UsbTransfer
