import UsbTransfer.Delivery
import UsbTransfer.Installation
import UsbTransfer.Proofs.Accounts

/-!
# Operations on endpoints, tables and queues

Each operation is orderly.  What happens under a lock comes down to changes of the unlocked state:
locks are free in every sound state, no user code runs while one is held, and nothing that is done
meanwhile ends in a fault.
-/

namespace UsbTransfer

open Run

/-! ## Endpoints -/

namespace Bus

/-- The behaviour for this call is used up, whatever the bus is asked for. -/
@[simp]
theorem ensures_nextHook {α : Type} (bus : Key Bus) (schedule : BusPlan Script → Schedule α)
    (used : BusPlan Script → BusPlan Script) (w : World)
    (Q : Except Fault (Option α) → World → Prop) :
    Ensures (nextHook bus schedule used) w Q ↔
      Q (.ok (schedule (w.state.buses.get bus).plan).current?)
        (w.alter (·.setPlan bus (used (w.state.buses.get bus).plan))) :=
  Iff.rfl

end Bus

/-- A reference on an endpoint goes away; with the last one, the bus is told. -/
inductive World.Loses (e : Key Endpoint) (w : World) : World → Prop where
  | shared (hreferences : 1 < (w.state.endpoints.get e).references) :
      Loses e w ((w.alter (·.loseReference e)).note (.referenceReleased e))
  | last {plan : BusPlan Script} (hreferences : (w.state.endpoints.get e).references = 1)
      (hplan : w.state.KeepsLabel (w.state.busOf e) plan) :
      Loses e w
        ((((w.alter (·.loseReference e)).note (.referenceReleased e)).alter
          (·.setPlan (w.state.busOf e) plan)).note (.endpointFarewell (w.state.busOf e) e))

theorem World.Loses.moves {hands : Hands} {e : Key Endpoint} {w w' : World}
    (h : w.Loses e w') (hspare : 0 < w.state.spare e) :
    Moves hands [.reference e] [] w w' := by
  cases h with
  | shared hreferences => exact .release hspare hreferences
  | last hreferences hplan => exact .releaseLast hspare hreferences hplan

section Several

variable {hands : Hands} {e : Key Endpoint} {rest : List (Key Endpoint)} {w w' : World}

/-- The first of several references that are spare is spare. -/
theorem State.spare_pos_of_cons {s : State} (hspare : ∀ x, (e :: rest).count x ≤ s.spare x) :
    0 < s.spare e := by
  have he := hspare e
  rw [List.count_cons_self] at he
  omega

/-- When the first of several references is gone, the others are left. -/
theorem Moves.spare_rest (h : Moves hands [.reference e] [] w w')
    (hspare : ∀ x, (e :: rest).count x ≤ w.state.spare x) (x : Key Endpoint) :
    rest.count x ≤ w'.state.spare x := by
  have hx := hspare x
  have hleft := h.spare x
  simp only [List.count_cons, List.count_nil, beq_iff_eq, Item.reference.injEq] at hx hleft
  omega

/-- References go away one after the other, and others work in between. -/
inductive World.LosesAll (hands : Hands) : List (Key Endpoint) → World → World → Prop where
  | nil {w : World} : LosesAll hands [] w w
  | cons {e : Key Endpoint} {rest : List (Key Endpoint)} {w w₁ w₂ w' : World}
      (hloses : w.Loses e w₁) (hmoves : Moves hands [] [] w₁ w₂)
      (hrest : LosesAll hands rest w₂ w') :
      LosesAll hands (e :: rest) w w'

theorem World.LosesAll.moves {es : List (Key Endpoint)} (h : w.LosesAll hands es w')
    (hspare : ∀ x, es.count x ≤ w.state.spare x) :
    Moves hands (Item.references es) [] w w' := by
  induction h with
  | nil => exact .refl hands _
  | cons hloses hmoves hrest ih =>
      have hbefore := (hloses.moves (State.spare_pos_of_cons hspare)).trans hmoves
      exact hbefore.trans (ih (hbefore.spare_rest hspare))

end Several

namespace Endpoint

variable {play : Player} {hands : Hands} {w : World} {e : Key Endpoint}

@[simp]
theorem ensures_create (bus : Key Bus) (descriptor : Descriptor) (w : World)
    (Q : Except Fault (Key Endpoint) → World → Prop) :
    Ensures (create bus descriptor) w Q ↔
      Q (.ok w.state.endpoints.nextKey)
        ((w.alter (·.addEndpoint bus descriptor)).note
          (.endpointCreated w.state.endpoints.nextKey)) :=
  Iff.rfl

theorem ensures_acquire {Q : Except Fault Unit → World → Prop}
    (hreferences : 0 < (w.state.endpoints.get e).references) :
    Ensures (acquire e) w Q ↔
      Q (.ok ()) ((w.alter (·.gainReference e)).note (.referenceTaken e)) := by
  have hne : (w.state.endpoints.get e).references ≠ 0 := Nat.ne_of_gt hreferences
  simp [acquire, hne]

@[simp]
theorem ensures_setToggle (e : Key Endpoint) (value : Bool) (w : World)
    (Q : Except Fault Unit → World → Prop) :
    Ensures (setToggle e value) w Q ↔
      Q (.ok ())
        ((w.alter fun s =>
          { s with endpoints := s.endpoints.modify e fun x => { x with toggle := value } }).note
            (.toggleSet e value)) :=
  Iff.rfl

/-- After the loss of the reference only the bus of the endpoint acts, and only if that was the
last one. -/
theorem ensures_release (hplay : play.Fair) (hw : w.Ready hands)
    (hspare : 0 < w.state.spare e) :
    Ensures (release play e) w fun r w' =>
      ∃ w₁, w.Loses e w₁ ∧ Account hands Fault.Raised [] (fun _ => []) w₁ r w' ∧
        (1 < (w.state.endpoints.get e).references → r = .ok () ∧ w' = w₁) := by
  have hpositive : 0 < (w.state.endpoints.get e).references :=
    hw.sound.counted.references_pos (State.handlesOn_pos_of_spare hspare)
  unfold release
  simp only [ensures_bind, ensures_getState, then_ok]
  split
  · omega
  · next left hleft =>
      simp only [ensures_bind, ensures_modifyState, then_ok, ensures_record]
      by_cases hlast : left = 0
      · subst hlast
        have hbus : ((w.alter (·.loseReference e)).note (.referenceReleased e)).state.busOf e =
            w.state.busOf e :=
          w.state.endpoints.apply_get_modify e e _ Endpoint.bus fun _ => rfl
        rw [if_pos rfl]
        unfold free Bus.endpointFarewell
        simp only [ensures_bind, ensures_getState, then_ok, Bus.ensures_nextHook,
          ensures_record]
        rw [hbus]
        have hloses : w.Loses e
            ((((w.alter (·.loseReference e)).note (.referenceReleased e)).alter
              (·.setPlan (w.state.busOf e)
                { (w.state.buses.get (w.state.busOf e)).plan with
                  endpointDestroy :=
                    (w.state.buses.get (w.state.busOf e)).plan.endpointDestroy.advance })).note
              (.endpointFarewell (w.state.busOf e) e)) :=
          .last hleft ⟨rfl, rfl⟩
        have hfreed : ∀ (reply : FarewellReply) (w₁ w₂ : World), w.Loses e w₁ →
            Moves hands [] [] w₁ w₂ →
              Ensures (record (.endpointFreed e reply)) w₂ fun r w' =>
                ∃ w₁, w.Loses e w₁ ∧ Account hands Fault.Raised [] (fun _ => []) w₁ r w' ∧
                  (1 < (w.state.endpoints.get e).references → r = .ok () ∧ w' = w₁) := by
          intro reply w₁ w₂ hloses hmoves
          have hnote : Moves hands [] [] w₂ (w₂.note (.endpointFreed e reply)) :=
            .noteAside .unlocked trivial rfl fun h => h.elim
          exact ⟨w₁, hloses, hmoves.trans hnote, fun h => absurd h (by omega)⟩
        split
        · exact hfreed _ _ _ hloses (.refl _ _)
        · next hook hcurrent =>
            simp only [ensures_bind]
            refine Ensures.mono
              (hplay.run_none ((hloses.moves hspare).ready hw) hook.code) fun r w₂ hr => ?_
            cases r with
            | ok _ => exact hfreed _ _ _ hloses hr
            | error fault => exact ⟨_, hloses, hr, fun h => absurd h (by omega)⟩
      · rw [if_neg hlast]
        have hshared : 1 < (w.state.endpoints.get e).references := by omega
        exact ⟨_, .shared hshared, .refl _ _, fun _ => ⟨rfl, rfl⟩⟩

theorem release_orderly (hplay : play.Fair) (hw : w.Ready hands)
    (hspare : 0 < w.state.spare e) :
    Orderly hands Fault.Raised [.reference e] (fun _ => []) (release play e) w := by
  apply Ensures.mono (ensures_release hplay hw hspare)
  intro r w' hr
  obtain ⟨w₁, hloses, haccount, -⟩ := hr
  exact haccount.after (hloses.moves hspare)

/-- References that an operation is left with go away one after the other. -/
theorem ensures_releaseAll (hplay : play.Fair) {es : List (Key Endpoint)}
    (hw : w.Ready hands) (hspare : ∀ x, es.count x ≤ w.state.spare x) :
    Ensures (releaseAll play es) w fun r w' =>
      w.LosesAll hands es w' ∧ Allowed Fault.Raised r := by
  induction es generalizing w with
  | nil => exact ⟨.nil, trivial⟩
  | cons e rest ih =>
      have hfirst := State.spare_pos_of_cons hspare
      unfold releaseAll
      rw [ensures_ensuring]
      apply Ensures.mono (ensures_release hplay hw hfirst)
      rintro r w₂ ⟨w₁, hloses, haccount, -⟩
      have hmoves := (hloses.moves hfirst).trans haccount.moves
      apply Ensures.mono (ih (hmoves.ready hw) (hmoves.spare_rest hspare))
      rintro r' w' ⟨hrest, hallowed⟩
      exact ⟨.cons hloses haccount.moves hrest, haccount.allowed.settled hallowed⟩

theorem releaseAll_orderly (hplay : play.Fair) {es : List (Key Endpoint)}
    (hw : w.Ready hands) (hspare : ∀ x, es.count x ≤ w.state.spare x) :
    Orderly hands Fault.Raised (Item.references es) (fun _ => []) (releaseAll play es) w := by
  apply Ensures.mono (ensures_releaseAll hplay hw hspare)
  rintro r w' ⟨hloses, hallowed⟩
  exact .of_moves (hloses.moves hspare) hallowed

end Endpoint

/-! ## Tables -/

/-- The lock of a table is put into a position. -/
def State.lockTable (s : State) (t : Key Table) (lock : Lock) : State :=
  { s with tables := s.tables.modify t fun table => { table with lock := lock } }

theorem State.unlockTable {s : State} {t : Key Table} (hfree : (s.tables.get t).lock = .free) :
    (s.lockTable t .held).lockTable t .free = s := by
  have htables : (s.tables.modify t fun table => { table with lock := .held }).modify t
      (fun table => { table with lock := .free }) = s.tables := by
    rw [Arena.modify_modify]
    refine Arena.modify_eq_self _ _ _ ?_
    simp only [Function.comp_apply, ← hfree]
  unfold State.lockTable
  rw [htables]

theorem State.slots_lockTable (s : State) (t t' : Key Table) (lock : Lock) :
    ((s.lockTable t lock).tables.get t').slots = (s.tables.get t').slots :=
  s.tables.apply_get_modify t t' _ Table.slots fun _ => rfl

/-- Locking a table does not change what is found in it. -/
theorem State.lookup?_lockTable (s : State) (t t' : Key Table) (lock : Lock) (target : Target) :
    ((s.lockTable t lock).tables.get t').lookup? (s.lockTable t lock).targetOf target =
      (s.tables.get t').lookup? s.targetOf target := by
  unfold Table.lookup?
  rw [s.slots_lockTable]
  rfl

theorem State.install_lockTable (s : State) (t : Key Table) (lock : Lock) (e : Key Endpoint) :
    (s.lockTable t lock).install t e = (s.install t e).lockTable t lock := by
  have htables : (s.tables.modify t fun table => { table with lock := lock }).modify t
        (fun table => { table with slots := table.slots.insert e }) =
      (s.tables.modify t fun table => { table with slots := table.slots.insert e }).modify t
        (fun table => { table with lock := lock }) := by
    rw [Arena.modify_modify, Arena.modify_modify]
    rfl
  unfold State.install State.lockTable
  rw [htables]

theorem State.uninstall?_lockTable (s : State) (t : Key Table) (lock : Lock) (slot : Nat) :
    (s.lockTable t lock).uninstall? t slot =
      (s.uninstall? t slot).map fun taken => (taken.1, taken.2.lockTable t lock) := by
  unfold State.uninstall?
  rw [s.slots_lockTable, Option.map_map]
  refine congrArg (Option.map · _) (funext fun taken => ?_)
  obtain ⟨e, slots⟩ := taken
  have htables : (s.tables.modify t fun table => { table with lock := lock }).modify t
        (fun table => { table with slots := slots }) =
      (s.tables.modify t fun table => { table with slots := slots }).modify t
        (fun table => { table with lock := lock }) := by
    rw [Arena.modify_modify, Arena.modify_modify]
    rfl
  simp only [State.lockTable, Function.comp_apply, htables]

namespace Table

variable {play : Player} {hands : Hands} {w : World} {t : Key Table} {e : Key Endpoint}

@[simp]
theorem ensures_create (w : World) (Q : Except Fault (Key Table) → World → Prop) :
    Ensures create w Q ↔
      Q (.ok w.state.tables.nextKey)
        (w.alter fun s => { s with tables := s.tables.push default }) :=
  Iff.rfl

/-- Whatever is done under the lock without a fault is done to the unlocked table. -/
theorem ensures_locking {α : Type} {m : Run α} {Q : Except Fault α → World → Prop}
    (hfree : (w.state.tables.get t).lock = .free)
    (h : Ensures m (w.alter (·.lockTable t .held)) fun r w' =>
      ∃ a w₁, r = .ok a ∧ w' = w₁.alter (·.lockTable t .held) ∧
        (w₁.state.tables.get t).lock = .free ∧ Q (.ok a) w₁) :
    Ensures (locking t m) w Q := by
  unfold locking
  rw [ensures_guarding hfree]
  apply Ensures.mono h
  intro r w' hr
  obtain ⟨a, w₁, rfl, rfl, hlock, hQ⟩ := hr
  have hunlock : (w₁.alter (·.lockTable t .held)).alter (·.lockTable t .free) = w₁ := by
    simp only [World.alter, State.unlockTable hlock]
  change Q (.ok a) ((w₁.alter (·.lockTable t .held)).alter (·.lockTable t .free))
  rwa [hunlock]

theorem lookup?_eq_some {target : Target} {slot : Nat}
    (h : (w.state.tables.get t).lookup? w.state.targetOf target = some (slot, e)) :
    (w.state.tables.get t).slots.get? slot = some e ∧
      (w.state.targetOf e).Matches target := by
  obtain ⟨hget, hmatches⟩ := Slots.findSlot?_eq_some h
  exact ⟨hget, of_decide_eq_true hmatches⟩

theorem uninstall?_of_get? {s : State} {slot : Nat}
    (h : (s.tables.get t).slots.get? slot = some e) :
    ∃ s', s.uninstall? t slot = some (e, s') := by
  unfold State.uninstall?
  rw [Slots.remove?_eq_some.mpr ⟨h, rfl⟩]
  exact ⟨_, rfl⟩

theorem lock_install (s : State) (t t' : Key Table) (e : Key Endpoint) :
    ((s.install t e).tables.get t').lock = (s.tables.get t').lock :=
  s.tables.apply_get_modify t t' _ Table.lock fun _ => rfl

/-- An endpoint whose target nothing matches is installed. -/
theorem ensures_register_of_vacant {Q : Except Fault (Except UsbError Unit) → World → Prop}
    (hfree : (w.state.tables.get t).lock = .free)
    (hlookup : (w.state.tables.get t).lookup? w.state.targetOf (w.state.targetOf e) = none)
    (h : Q (.ok (.ok ()))
      ((w.noteUnder (.table t) (.registered t e)).alter (·.install t e))) :
    Ensures (register play t e) w Q := by
  unfold register
  rw [ensures_bind]
  refine ensures_locking hfree ?_
  simp only [ensures_bind, ensures_getState, then_ok, World.alter_state]
  rw [State.lookup?_lockTable, show (w.state.lockTable t .held).targetOf e =
    w.state.targetOf e from rfl, hlookup]
  simp only [ensures_bind, ensures_record, ensures_modifyState, then_ok, ensures_pure]
  refine ⟨true, (w.noteUnder (.table t) (.registered t e)).alter (·.install t e), rfl, ?_,
    (lock_install _ _ _ _).trans hfree, h⟩
  simp only [World.alter, World.note, World.noteUnder, State.install_lockTable]
  rfl

/-- An endpoint whose target is taken is not installed, and its reference is released when the
table is unlocked. -/
theorem ensures_register_of_matching {Q : Except Fault (Except UsbError Unit) → World → Prop}
    (hfree : (w.state.tables.get t).lock = .free) {entry : Nat × Key Endpoint}
    (hlookup : (w.state.tables.get t).lookup? w.state.targetOf (w.state.targetOf e) = some entry)
    (h : Ensures (Endpoint.release play e) (w.noteUnder (.table t) (.registrationRefused t e))
      (Then (fun _ => pure (.error .alreadyRegistered)) Q)) :
    Ensures (register play t e) w Q := by
  unfold register
  rw [ensures_bind]
  refine ensures_locking hfree ?_
  simp only [ensures_bind, ensures_getState, then_ok, World.alter_state]
  rw [State.lookup?_lockTable, show (w.state.lockTable t .held).targetOf e =
    w.state.targetOf e from rfl, hlookup]
  simp only [ensures_bind, ensures_record, then_ok, ensures_pure]
  exact ⟨false, w.noteUnder (.table t) (.registrationRefused t e), rfl, rfl, hfree,
    (ensures_bind _ _ _ _).mpr h⟩

theorem register_orderly (hplay : play.Fair) (hw : w.Ready hands)
    (hnamed : t ∈ w.state.directory.tables.values) (hspare : 0 < w.state.spare e) :
    Orderly hands Fault.Raised [.reference e] (fun _ => []) (register play t e) w := by
  have hfree := hw.sound.tablesFree t
  cases hlookup : (w.state.tables.get t).lookup? w.state.targetOf (w.state.targetOf e) with
  | none =>
      have hinstall : Moves hands [.reference e] [] w _ := .install hspare hnamed hlookup
      exact ensures_register_of_vacant hfree hlookup hinstall
  | some entry =>
      have hnote : Moves hands [] [] w (w.noteUnder (.table t) (.registrationRefused t e)) :=
        .noteAside _ ⟨entry, hlookup⟩ rfl fun h => h.elim
      refine ensures_register_of_matching hfree hlookup ?_
      apply Ensures.mono (Endpoint.release_orderly hplay (hnote.ready hw) hspare)
      intro r w' hr
      have hmoves := hnote.trans hr.moves
      cases r with
      | ok _ => exact hmoves
      | error fault => exact ⟨hmoves, hr.2⟩

theorem ensures_find?_of_none {Q : Except Fault (Option (Key Endpoint)) → World → Prop}
    {target : Target} (hfree : (w.state.tables.get t).lock = .free)
    (hlookup : (w.state.tables.get t).lookup? w.state.targetOf target = none)
    (h : Q (.ok none) w) :
    Ensures (find? t target) w Q := by
  refine ensures_locking hfree ?_
  simp only [ensures_bind, ensures_getState, then_ok, World.alter_state]
  rw [State.lookup?_lockTable, hlookup]
  exact ⟨none, w, rfl, rfl, hfree, h⟩

theorem ensures_find?_of_some {Q : Except Fault (Option (Key Endpoint)) → World → Prop}
    {target : Target} {slot : Nat} (hfree : (w.state.tables.get t).lock = .free)
    (hlookup : (w.state.tables.get t).lookup? w.state.targetOf target = some (slot, e))
    (hreferences : 0 < (w.state.endpoints.get e).references)
    (h : Q (.ok (some e))
      ((w.alter (·.gainReference e)).noteUnder (.table t) (.referenceTaken e))) :
    Ensures (find? t target) w Q := by
  refine ensures_locking hfree ?_
  simp only [ensures_bind, ensures_getState, then_ok, World.alter_state]
  rw [State.lookup?_lockTable, hlookup]
  simp only [ensures_bind]
  rw [Endpoint.ensures_acquire (by exact hreferences)]
  exact ⟨some e, (w.alter (·.gainReference e)).noteUnder (.table t) (.referenceTaken e), rfl,
    rfl, hfree, h⟩

theorem references_pos_of_lookup? (hw : w.state.Sound) {target : Target} {slot : Nat}
    (hlookup : (w.state.tables.get t).lookup? w.state.targetOf target = some (slot, e)) :
    0 < (w.state.endpoints.get e).references := by
  have hget := (lookup?_eq_some hlookup).1
  exact hw.counted.references_pos
    (State.handlesOn_pos_of_installed (Slots.mem_values.mpr ⟨slot, hget⟩))

theorem find?_orderly (hw : w.Ready hands) (target : Target) :
    Orderly hands Fault.Raised [] (fun found => Item.references found.toList)
      (find? t target) w := by
  have hfree := hw.sound.tablesFree t
  cases hlookup : (w.state.tables.get t).lookup? w.state.targetOf target with
  | none => exact ensures_find?_of_none hfree hlookup (Moves.refl hands w)
  | some entry =>
      obtain ⟨slot, e⟩ := entry
      have hreferences := references_pos_of_lookup? hw.sound hlookup
      exact ensures_find?_of_some hfree hlookup hreferences (.acquire hw.sound _ hreferences)

theorem ensures_remove_of_none {Q : Except Fault (Except UsbError (Key Endpoint)) → World → Prop}
    {target : Target} (hfree : (w.state.tables.get t).lock = .free)
    (hlookup : (w.state.tables.get t).lookup? w.state.targetOf target = none)
    (h : Q (.ok (.error .notRegistered)) w) :
    Ensures (remove t target) w Q := by
  refine ensures_locking hfree ?_
  simp only [ensures_bind, ensures_getState, then_ok, World.alter_state]
  rw [State.lookup?_lockTable, hlookup]
  exact ⟨_, w, rfl, rfl, hfree, h⟩

theorem lock_uninstall {s s' : State} {slot : Nat} (h : s.uninstall? t slot = some (e, s'))
    (t' : Key Table) :
    (s'.tables.get t').lock = (s.tables.get t').lock := by
  obtain ⟨_, -, rfl⟩ := State.uninstall?_eq_some h
  exact s.tables.apply_get_modify t t' _ Table.lock fun _ => rfl

/-- Under the lock, vacating a slot is the same as without it. -/
theorem ensures_vacate {s : State} {slot : Nat}
    {Q : Except Fault (Key Endpoint) → World → Prop}
    (hslot : w.state.uninstall? t slot = some (e, s)) :
    Ensures (vacate t slot) (w.alter (·.lockTable t .held)) Q ↔
      Q (.ok e) ((w.alter fun _ => s).alter (·.lockTable t .held)) := by
  unfold vacate
  simp only [ensures_bind, ensures_getState, then_ok, World.alter_state,
    State.uninstall?_lockTable, hslot, Option.map_some]
  rfl

theorem ensures_remove_of_some {Q : Except Fault (Except UsbError (Key Endpoint)) → World → Prop}
    {target : Target} {slot : Nat} {s : State} (hfree : (w.state.tables.get t).lock = .free)
    (hlookup : (w.state.tables.get t).lookup? w.state.targetOf target = some (slot, e))
    (hslot : w.state.uninstall? t slot = some (e, s))
    (h : Q (.ok (.ok e))
      ((w.noteUnder (.table t) (.unregistered t target e)).alter fun _ => s)) :
    Ensures (remove t target) w Q := by
  refine ensures_locking hfree ?_
  simp only [ensures_bind, ensures_getState, then_ok, World.alter_state]
  rw [State.lookup?_lockTable, hlookup]
  simp only [ensures_bind, ensures_record, then_ok]
  have hvacate : (w.noteUnder (.table t) (.unregistered t target e)).state.uninstall? t slot =
      some (e, s) := hslot
  refine (ensures_vacate hvacate).mpr ?_
  exact ⟨_, _, rfl, rfl, (lock_uninstall hslot t).trans hfree, h⟩

theorem remove_orderly (hw : w.Ready hands) (target : Target) :
    Orderly hands Fault.Raised []
      (fun removed => Item.references removed.toOption.toList) (remove t target) w := by
  have hfree := hw.sound.tablesFree t
  cases hlookup : (w.state.tables.get t).lookup? w.state.targetOf target with
  | none => exact ensures_remove_of_none hfree hlookup (Moves.refl hands w)
  | some entry =>
      obtain ⟨slot, e⟩ := entry
      obtain ⟨s, hslot⟩ := uninstall?_of_get? (lookup?_eq_some hlookup).1
      have hnote : Moves hands [] [] w (w.noteUnder (.table t) (.unregistered t target e)) :=
        .noteAside _ ⟨slot, hlookup⟩ rfl fun h => h.elim
      have huninstall : Moves hands [] [.reference e]
          (w.noteUnder (.table t) (.unregistered t target e))
          ((w.noteUnder (.table t) (.unregistered t target e)).alter fun _ => s) :=
        .uninstall (hnote.ready hw).sound hslot rfl ⟨rfl, rfl⟩
      exact ensures_remove_of_some hfree hlookup hslot (hnote.trans huninstall)

/-- The slots of a device are vacated one after the other, after one announcement. -/
theorem ensures_vacateAll (hands : Hands) {address : UInt8} {m : Moment} {earlier : List Moment}
    {count : Nat} {slots : List Nat} (hw : w.state.Sound) (hnodup : slots.Nodup)
    (hslots : ∀ slot ∈ slots, ∃ e, (w.state.tables.get t).slots.get? slot = some e ∧
      (w.state.targetOf e).address = address)
    (hhistory : w.history = m :: earlier)
    (hm : m.occurrence = .deviceUnregistered t address count) :
    Ensures (slots.mapM (vacate t)) (w.alter (·.lockTable t .held)) fun r w' =>
      ∃ es w₁, r = .ok es ∧ w' = w₁.alter (·.lockTable t .held) ∧
        Moves hands [] (Item.references es) w w₁ := by
  induction slots generalizing w with
  | nil => exact ⟨[], w, rfl, rfl, .refl hands w⟩
  | cons slot rest ih =>
      obtain ⟨e, hget, haddress⟩ := hslots slot List.mem_cons_self
      obtain ⟨s, hslot⟩ := uninstall?_of_get? hget
      have hmoves : Moves hands [] [.reference e] w (w.alter fun _ => s) :=
        .uninstall hw hslot hhistory (by rw [hm]; exact ⟨rfl, haddress⟩)
      obtain ⟨hfresh, hrest⟩ := List.nodup_cons.mp hnodup
      have hkept : ∀ slot' ∈ rest, ∃ e', (s.tables.get t).slots.get? slot' = some e' ∧
          (s.targetOf e').address = address := by
        intro slot' hslot'
        obtain ⟨e', hget', haddress'⟩ := hslots slot' (List.mem_cons_of_mem _ hslot')
        have hne : slot ≠ slot' := fun h => hfresh (h ▸ hslot')
        have hkept := Slots.get?_of_remove? (State.slots_uninstall hslot).1 hne
        obtain ⟨_, -, rfl⟩ := State.uninstall?_eq_some hslot
        exact ⟨e', hkept.trans hget', haddress'⟩
      rw [List.mapM_cons]
      simp only [ensures_bind]
      refine (ensures_vacate hslot).mpr ?_
      simp only [then_ok, ensures_bind]
      apply Ensures.mono (ih (hmoves.changes.sound hw) hrest hkept hhistory)
      intro r w' hr
      obtain ⟨es, w₁, rfl, rfl, hlater⟩ := hr
      exact ⟨e :: es, w₁, rfl, rfl, hmoves.trans hlater⟩

theorem removeDevice_orderly (hw : w.Ready hands) (address : UInt8) :
    Orderly hands Fault.Raised [] Item.references (removeDevice t address) w := by
  have hfree := hw.sound.tablesFree t
  refine ensures_locking hfree ?_
  have hslotsOf : ((w.state.lockTable t .held).tables.get t).deviceSlots
      (w.state.lockTable t .held).targetOf address =
        (w.state.tables.get t).deviceSlots w.state.targetOf address := by
    unfold deviceSlots
    rw [State.slots_lockTable]
    rfl
  simp only [ensures_bind, ensures_getState, then_ok, World.alter_state, ensures_record]
  rw [hslotsOf]
  have hnote : ∀ count, Moves hands [] [] w
      (w.noteUnder (.table t) (.deviceUnregistered t address count)) :=
    fun count => .noteAside _ trivial rfl fun h => h.elim
  refine Ensures.mono (ensures_vacateAll hands ((hnote _).ready hw).sound
    (Slots.slotsWhere_nodup _ _) ?_ rfl rfl) fun r w' hr => ?_
  · intro slot hslot
    obtain ⟨e, hget, haddress⟩ := Slots.mem_slotsWhere.mp hslot
    exact ⟨e, hget, of_decide_eq_true haddress⟩
  · obtain ⟨es, w₁, rfl, rfl, hmoves⟩ := hr
    have htotal := (hnote _).trans hmoves
    exact ⟨es, w₁, rfl, rfl, (htotal.ready hw).sound.tablesFree t, htotal⟩

/-- Under the lock, toggles are reset one after the other. -/
theorem ensures_resetEach (hands : Hands) {es : List (Key Endpoint)} :
    Ensures (es.forM fun e => Endpoint.setToggle e false) (w.alter (·.lockTable t .held))
      fun r w' => ∃ w₁, r = .ok () ∧ w' = w₁.alter (·.lockTable t .held) ∧
        Moves hands [] [] w w₁ := by
  induction es generalizing w with
  | nil => exact ⟨w, rfl, rfl, .refl hands w⟩
  | cons e rest ih =>
      change Ensures (Endpoint.setToggle e false >>= fun _ =>
        rest.forM fun e => Endpoint.setToggle e false) _ _
      simp only [ensures_bind, Endpoint.ensures_setToggle, then_ok]
      have hfirst : Moves hands [] [] w _ := .setToggle e false (.table t)
      obtain ⟨w₁, hw₁⟩ : ∃ w₁, w₁ = (w.alter fun s => { s with
          endpoints := s.endpoints.modify e fun x => { x with toggle := false } }).noteUnder
            (.table t) (.toggleSet e false) := ⟨_, rfl⟩
      have hlater := ih (w := w₁)
      rw [← hw₁] at hfirst
      subst hw₁
      apply Ensures.mono hlater
      intro r w' hr
      obtain ⟨w₂, rfl, rfl, hmoves⟩ := hr
      exact ⟨w₂, rfl, rfl, hfirst.trans hmoves⟩

theorem resetToggles_orderly (hw : w.Ready hands) (target : Target) (scope : ResetScope) :
    Orderly hands Fault.Raised [] (fun _ => []) (resetToggles t target scope) w := by
  refine ensures_locking (hw.sound.tablesFree t) ?_
  simp only [ensures_bind, ensures_getState, then_ok]
  apply Ensures.mono (ensures_resetEach hands)
  intro r w' hr
  obtain ⟨w₁, rfl, rfl, hmoves⟩ := hr
  simp only [then_ok, ensures_bind, ensures_record, ensures_pure]
  have hnote : ∀ es, Moves hands [] [] w (w₁.noteUnder (.table t) (.tableReset t es)) :=
    fun es => hmoves.trans (.noteAside _ trivial rfl fun h => h.elim)
  exact ⟨_, w₁.noteUnder (.table t) (.tableReset t _), rfl, rfl,
    (hmoves.ready hw).sound.tablesFree t, hnote _⟩

theorem ensures_size {Q : Except Fault Nat → World → Prop}
    (hfree : (w.state.tables.get t).lock = .free)
    (h : Q (.ok (w.state.tables.get t).slots.size) w) :
    Ensures (size t) w Q := by
  refine ensures_locking hfree ?_
  simp only [ensures_bind, ensures_getState, then_ok, World.alter_state, State.slots_lockTable]
  exact ⟨_, w, rfl, rfl, hfree, h⟩

theorem destroy_orderly (hplay : play.Fair) (hw : w.Ready hands)
    (ht : t.index < w.state.tables.size) (hnamed : t ∉ w.state.directory.tables.values) :
    Orderly hands Fault.Raised [] (fun _ => []) (destroy play t) w := by
  have hclear : Moves hands [] _ w _ := .giveUpTable hw.sound ht hnamed
  unfold Orderly destroy
  simp only [ensures_bind, ensures_getState, then_ok, ensures_record, ensures_modifyState]
  exact (Endpoint.releaseAll_orderly hplay (hclear.ready hw) hclear.spare_taken).after hclear

end Table

/-! ## Queues -/

/-- The lock of a queue is put into a position. -/
def State.lockQueue (s : State) (q : Key Queue) (lock : Lock) : State :=
  { s with queues := s.queues.modify q fun queue => { queue with lock := lock } }

theorem State.unlockQueue {s : State} {q : Key Queue} (hfree : (s.queues.get q).lock = .free) :
    (s.lockQueue q .held).lockQueue q .free = s := by
  have hqueues : (s.queues.modify q fun queue => { queue with lock := .held }).modify q
      (fun queue => { queue with lock := .free }) = s.queues := by
    rw [Arena.modify_modify]
    refine Arena.modify_eq_self _ _ _ ?_
    simp only [Function.comp_apply, ← hfree]
  unfold State.lockQueue
  rw [hqueues]

theorem State.pending_lockQueue (s : State) (q : Key Queue) (lock : Lock) :
    ((s.lockQueue q lock).queues.get q).pending = (s.queues.get q).pending :=
  s.queues.apply_get_modify q q _ Queue.pending fun _ => rfl

/-- The contents of a queue and its lock are changed apart from each other. -/
theorem State.setQueue_lockQueue (s : State) (q : Key Queue) (lock : Lock)
    (f : List Completion → List Completion) :
    (s.lockQueue q lock).setQueue q (fun queue => { queue with pending := f queue.pending }) =
      (s.setQueue q fun queue => { queue with pending := f queue.pending }).lockQueue q lock := by
  unfold State.setQueue State.lockQueue
  simp only [Arena.modify_modify]
  rfl

namespace Queue

variable {play : Player} {hands : Hands} {w : World} {q : Key Queue}

@[simp]
theorem ensures_create (w : World) (Q : Except Fault (Key Queue) → World → Prop) :
    Ensures create w Q ↔
      Q (.ok w.state.queues.nextKey)
        (w.alter fun s => { s with queues := s.queues.push default }) :=
  Iff.rfl

@[simp]
theorem ensures_modify (q : Key Queue) (f : Queue → Queue) (w : World)
    (Q : Except Fault Unit → World → Prop) :
    Ensures (modify q f) w Q ↔ Q (.ok ()) (w.alter (·.setQueue q f)) :=
  Iff.rfl

/-- Whatever is done under the lock without a fault is done to the unlocked queue. -/
theorem ensures_locking {α : Type} {m : Run α} {Q : Except Fault α → World → Prop}
    (hfree : (w.state.queues.get q).lock = .free)
    (h : Ensures m (w.alter (·.lockQueue q .held)) fun r w' =>
      ∃ a w₁, r = .ok a ∧ w' = w₁.alter (·.lockQueue q .held) ∧
        (w₁.state.queues.get q).lock = .free ∧ Q (.ok a) w₁) :
    Ensures (locking q m) w Q := by
  unfold locking
  rw [ensures_guarding hfree]
  apply Ensures.mono h
  intro r w' hr
  obtain ⟨a, w₁, rfl, rfl, hlock, hQ⟩ := hr
  have hunlock : (w₁.alter (·.lockQueue q .held)).alter (·.lockQueue q .free) = w₁ := by
    simp only [World.alter, State.unlockQueue hlock]
  change Q (.ok a) ((w₁.alter (·.lockQueue q .held)).alter (·.lockQueue q .free))
  rwa [hunlock]

theorem lock_setQueue (s : State) (f : List Completion → List Completion) :
    ((s.setQueue q fun queue => { queue with pending := f queue.pending }).queues.get q).lock =
      (s.queues.get q).lock :=
  s.queues.apply_get_modify q q _ Queue.lock fun _ => rfl

/-- The completion is in place and the queue is unlocked before anybody is woken. -/
theorem ensures_push {c : Completion} {Q : Except Fault Unit → World → Prop}
    (hfree : (w.state.queues.get q).lock = .free)
    (h : Ensures (wake play q)
      ((w.alter (·.setQueue q fun queue => { queue with
        pending := queue.pending ++ [c] })).noteUnder (.queue q) (.pushed q c)) Q) :
    Ensures (push play q c) w Q := by
  unfold push
  rw [ensures_bind]
  refine ensures_locking hfree ?_
  simp only [ensures_bind, ensures_modify, then_ok, ensures_record]
  refine ⟨(), _, trivial, ?_, (lock_setQueue w.state (· ++ [c])).trans hfree, h⟩
  have hcommute := w.state.setQueue_lockQueue q .held (· ++ [c])
  simp only [World.alter, World.note, World.noteUnder, hcommute]
  rfl

theorem ensures_wake_of_none {Q : Except Fault Unit → World → Prop}
    (hwaker : (w.state.queues.get q).waker = none) (h : Q (.ok ()) w) :
    Ensures (wake play q) w Q := by
  unfold wake
  simp only [ensures_bind, ensures_getState, then_ok, hwaker]
  exact h

theorem ensures_wake_of_some {waker : Waker} {Q : Except Fault Unit → World → Prop}
    (hwaker : (w.state.queues.get q).waker = some waker)
    (h : Ensures (play.run none waker.code)
      ((w.alter (·.setQueue q fun queue => { queue with waker := none })).note
        (.woken q waker.name)) Q) :
    Ensures (wake play q) w Q := by
  unfold wake
  simp only [ensures_bind, ensures_getState, then_ok, hwaker, ensures_modify, ensures_record]
  exact h

theorem wake_orderly (hplay : play.Fair) (hw : w.Ready hands) :
    Orderly hands Fault.Raised [] (fun _ => []) (wake play q) w := by
  cases hwaker : (w.state.queues.get q).waker with
  | none => exact ensures_wake_of_none hwaker (Moves.refl hands w)
  | some waker =>
      have hwoken : Moves hands [] [] w _ := .wake hwaker
      exact ensures_wake_of_some hwaker
        ((hplay.run_none (hwoken.ready hw) waker.code).after hwoken)

theorem push_orderly (hplay : play.Fair) (hw : w.Ready hands)
    (hq : q.index < w.state.queues.size) (c : Completion) :
    Orderly hands Fault.Raised [] (fun _ => []) (push play q c) w := by
  have hpush : Moves hands [] [] w _ := .push c hq
  exact ensures_push (hw.sound.queuesFree q) ((wake_orderly hplay (hpush.ready hw)).after hpush)

theorem ensures_next?_of_nil {Q : Except Fault (Option Completion) → World → Prop}
    (hfree : (w.state.queues.get q).lock = .free)
    (hpending : (w.state.queues.get q).pending = []) (h : Q (.ok none) w) :
    Ensures (next? q) w Q := by
  refine ensures_locking hfree ?_
  simp only [ensures_bind, ensures_getState, then_ok, World.alter_state,
    State.pending_lockQueue, hpending]
  exact ⟨none, w, rfl, rfl, hfree, h⟩

theorem ensures_next?_of_cons {c : Completion} {rest : List Completion}
    {Q : Except Fault (Option Completion) → World → Prop}
    (hfree : (w.state.queues.get q).lock = .free)
    (hpending : (w.state.queues.get q).pending = c :: rest)
    (h : Q (.ok (some c))
      ((w.alter (·.setQueue q fun queue => { queue with pending := rest })).noteUnder
        (.queue q) (.handedOut q c))) :
    Ensures (next? q) w Q := by
  refine ensures_locking hfree ?_
  simp only [ensures_bind, ensures_getState, then_ok, World.alter_state,
    State.pending_lockQueue, hpending, ensures_modify, ensures_record]
  refine ⟨some c, _, rfl, ?_, (lock_setQueue w.state fun _ => rest).trans hfree, h⟩
  have hcommute := w.state.setQueue_lockQueue q .held fun _ => rest
  simp only [World.alter, World.note, World.noteUnder, hcommute]
  rfl

/-- What is not handed out was not there. -/
theorem ensures_next? (hw : w.Ready hands) :
    Ensures (next? q) w fun r w' =>
      ∃ found, r = .ok found ∧ Moves hands [] [] w w' ∧
        (found = none → w' = w ∧ (w.state.queues.get q).pending = []) := by
  have hfree := hw.sound.queuesFree q
  cases hpending : (w.state.queues.get q).pending with
  | nil =>
      refine ensures_next?_of_nil hfree hpending ?_
      exact ⟨none, rfl, .refl hands w, fun _ => ⟨rfl, rfl⟩⟩
  | cons c rest =>
      refine ensures_next?_of_cons hfree hpending ?_
      exact ⟨some c, rfl, .handOut hpending, by simp⟩

theorem ensures_size {Q : Except Fault Nat → World → Prop}
    (hfree : (w.state.queues.get q).lock = .free)
    (h : Q (.ok (w.state.queues.get q).pending.length) w) :
    Ensures (size q) w Q := by
  refine ensures_locking hfree ?_
  simp only [ensures_bind, ensures_getState, then_ok, World.alter_state,
    State.pending_lockQueue]
  exact ⟨_, w, rfl, rfl, hfree, h⟩

/-- Whoever waits was left in a queue that is still empty. -/
theorem poll_orderly {waker : Waker} {meanwhile : Run Unit} (hw : w.Ready hands)
    (hmeanwhile : ∀ w', w'.Ready hands → (w'.state.queues.get q).pending = [] →
      (w'.state.queues.get q).waker = some waker →
        Ensures meanwhile w' fun r w'' => Account hands Fault.Raised [] (fun _ => []) w' r w'' ∧
          ((w''.state.queues.get q).pending = [] →
            (w''.state.queues.get q).waker = some waker)) (hq : q.index < w.state.queues.size) :
    Orderly hands Fault.Raised [] (fun _ => []) (poll q waker meanwhile) w := by
  unfold Orderly poll
  rw [ensures_bind]
  apply Ensures.mono (ensures_next? hw)
  intro r w₁ hr
  obtain ⟨found, rfl, hmoves, hnone⟩ := hr
  cases found with
  | some c => exact hmoves
  | none =>
      obtain ⟨rfl, hpending⟩ := hnone rfl
      have hleave : Moves hands [] [] w₁ _ := .leaveWaker waker hpending
      have hleft : ((w₁.state.setQueue q fun queue =>
          { queue with waker := some waker }).queues.get q).waker = some waker := by
        simp only [State.setQueue]
        rw [Arena.get_modify_self _ _ _ hq]
      have hstill : ((w₁.state.setQueue q fun queue =>
          { queue with waker := some waker }).queues.get q).pending = [] :=
        (w₁.state.queues.apply_get_modify q q (fun queue => { queue with waker := some waker })
          Queue.pending fun _ => rfl).trans hpending
      simp only [then_ok, ensures_bind, leave, ensures_modify]
      apply Ensures.mono (hmeanwhile _ (hleave.ready hw) hstill hleft)
      intro r w₂ hr
      obtain ⟨haccount, hwaker⟩ := hr
      have hlater := hleave.trans haccount.moves
      cases r with
      | error fault => exact ⟨hlater, haccount.2⟩
      | ok _ =>
          simp only [then_ok, ensures_bind]
          apply Ensures.mono (ensures_next? (hlater.ready hw))
          intro r w₃ hr
          obtain ⟨found, rfl, hmoves, hnone⟩ := hr
          cases found with
          | some c => exact hlater.trans hmoves
          | none =>
              obtain ⟨rfl, hpending⟩ := hnone rfl
              have hwaiting : Moves hands [] [] w₃ (w₃.note (.waiting q waker.name)) :=
                .noteAside .unlocked ⟨hpending, by rw [hwaker hpending]; rfl⟩ rfl
                  fun h => h.elim
              exact hlater.trans hwaiting

end Queue

end UsbTransfer
