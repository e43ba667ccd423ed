import UsbTransfer.Proofs.Sessions

/-!
# Exclusive tables

In a table no two installed endpoints match.  Matching is no equivalence, so that this does not
follow from any equality of keys: it is carried along by every change, and the number of endpoints
that match a target follows from the directions that can stand beside each other.
-/

namespace UsbTransfer

open Run

/-! ## Directions and targets -/

theorem Target.Matches.refl (t : Target) : t.Matches t :=
  ⟨rfl, rfl, .inl rfl⟩

theorem Target.Matches.symm {a b : Target} (h : a.Matches b) : b.Matches a := by
  obtain ⟨haddress, hendpoint, hdirection⟩ := h
  refine ⟨haddress.symm, hendpoint.symm, ?_⟩
  rcases hdirection with h | h | h
  · exact .inl h.symm
  · exact .inr (.inr h)
  · exact .inr (.inl h)

/-- Of three directions two overlap. -/
theorem Direction.overlaps_of_three (a b c : Direction) :
    a.Overlaps b ∨ a.Overlaps c ∨ b.Overlaps c := by
  cases a <;> cases b <;> cases c <;> decide

theorem Direction.eq_both_of_overlaps {d : Direction} (hin : Overlaps .inbound d)
    (hout : Overlaps .outbound d) :
    d = .both := by
  cases d with
  | outbound => exact absurd hin (by decide)
  | inbound => exact absurd hout (by decide)
  | both => rfl

/-- The directions that stand beside each other at one number of a device. -/
theorem Direction.apart {directions : List Direction}
    (h : directions.Pairwise fun a b => ¬ a.Overlaps b) :
    directions.length ≤ 1 ∨ directions = [.inbound, .outbound] ∨
      directions = [.outbound, .inbound] := by
  rcases directions with _ | ⟨a, _ | ⟨b, _ | ⟨c, rest⟩⟩⟩
  · exact .inl (by simp)
  · exact .inl (by simp)
  · right
    simp only [List.pairwise_cons, List.mem_singleton, forall_eq] at h
    have hab := h.1
    revert hab
    cases a <;> cases b <;> decide
  · simp only [List.pairwise_cons, List.mem_cons, forall_eq_or_imp] at h
    rcases Direction.overlaps_of_three a b c with hab | hac | hbc
    · exact absurd hab h.1.1
    · exact absurd hac h.1.2.1
    · exact absurd hbc h.2.1.1

namespace Table

/-- The slots whose endpoints match a target, in order. -/
def matching (targetOf : Key Endpoint → Target) (t : Table) (target : Target) :
    List (Nat × Key Endpoint) :=
  t.slots.entries.filter fun entry => (targetOf entry.2).Matches target

/-- No endpoint matches one in another slot. -/
def Exclusive (targetOf : Key Endpoint → Target) (t : Table) : Prop :=
  ∀ i j e e', t.slots.get? i = some e → t.slots.get? j = some e' →
    (targetOf e).Matches (targetOf e') → i = j

variable {targetOf : Key Endpoint → Target} {t : Table} {target : Target}

theorem mem_matching {i : Nat} {e : Key Endpoint} :
    (i, e) ∈ matching targetOf t target ↔
      t.slots.get? i = some e ∧ (targetOf e).Matches target := by
  simp [matching, Slots.mem_entries]

theorem lookup?_eq_head? :
    t.lookup? targetOf target = (matching targetOf t target).head? := by
  rw [matching, List.head?_filter]
  rfl

theorem matching_nodup : (matching targetOf t target).Pairwise fun a b => a.1 ≠ b.1 :=
  (t.slots.entries_pairwise.filter _).imp fun h => Nat.ne_of_lt h

/-- In an exclusive table the directions of the endpoints that match a target stand apart. -/
theorem Exclusive.apart (h : Exclusive targetOf t) (target : Target) :
    ((matching targetOf t target).map fun entry => (targetOf entry.2).direction).Pairwise
      fun a b => ¬ a.Overlaps b := by
  rw [List.pairwise_map]
  refine matching_nodup.imp_of_mem fun {a b} ha hb hne hoverlaps => hne ?_
  obtain ⟨hgeta, hmatchesa⟩ := mem_matching.mp ha
  obtain ⟨hgetb, hmatchesb⟩ := mem_matching.mp hb
  exact h a.1 b.1 a.2 b.2 hgeta hgetb ⟨hmatchesa.1.trans hmatchesb.1.symm,
    hmatchesa.2.1.trans hmatchesb.2.1.symm, hoverlaps⟩

/-- A one-way target matches one endpoint at most. -/
theorem Exclusive.length_matching_le_one_of_direction (h : Exclusive targetOf t)
    (hdirection : target.direction ≠ .both) :
    (matching targetOf t target).length ≤ 1 := by
  have hreached : ∀ d ∈ (matching targetOf t target).map fun entry =>
      (targetOf entry.2).direction, d.Overlaps target.direction := by
    intro d hd
    obtain ⟨entry, hentry, rfl⟩ := List.mem_map.mp hd
    exact (mem_matching.mp hentry).2.2.2
  have hlength := (matching targetOf t target).length_map
    fun entry => (targetOf entry.2).direction
  rcases Direction.apart (h.apart target) with hle | hboth | hboth
  · omega
  all_goals
    rw [hboth] at hreached
    exact absurd (Direction.eq_both_of_overlaps (hreached _ (by simp)) (hreached _ (by simp)))
      hdirection

/-- The target of an installed endpoint matches that endpoint alone. -/
theorem Exclusive.length_matching_le_one_of_installed (h : Exclusive targetOf t) {i : Nat}
    {e : Key Endpoint} (he : t.slots.get? i = some e) (htarget : targetOf e = target) :
    (matching targetOf t target).length ≤ 1 := by
  have hall : ∀ entry ∈ matching targetOf t target, entry.1 = i := by
    intro entry hentry
    obtain ⟨hget, hmatches⟩ := mem_matching.mp hentry
    exact h entry.1 i entry.2 e hget he (htarget ▸ hmatches)
  have hnodup : (matching targetOf t target).Pairwise fun a b => a.1 ≠ b.1 := matching_nodup
  rcases hlist : matching targetOf t target with _ | ⟨a, _ | ⟨b, rest⟩⟩
  · simp
  · simp
  · rw [hlist] at hall hnodup
    have hab := (List.pairwise_cons.mp hnodup).1 b (by simp)
    exact absurd ((hall a (by simp)).trans (hall b (by simp)).symm) hab

/-- A bidirectional target matches two endpoints at most, and two only if they are its one-way
halves. -/
theorem Exclusive.length_matching_of_both (h : Exclusive targetOf t)
    (hdirection : target.direction = .both) :
    (matching targetOf t target).length ≤ 2 ∧
      ((matching targetOf t target).length = 2 ↔
        (∃ e ∈ t.slots.values, targetOf e = { target with direction := .inbound }) ∧
          ∃ e ∈ t.slots.values, targetOf e = { target with direction := .outbound }) := by
  have hlength := (matching targetOf t target).length_map
    fun entry => (targetOf entry.2).direction
  have hhalf : ∀ d, d ∈ ((matching targetOf t target).map fun entry =>
      (targetOf entry.2).direction) →
        ∃ e ∈ t.slots.values, targetOf e = { target with direction := d } := by
    intro d hd
    obtain ⟨⟨i, e⟩, hentry, rfl⟩ := List.mem_map.mp hd
    obtain ⟨hget, haddress, hendpoint, -⟩ := mem_matching.mp hentry
    refine ⟨e, Slots.mem_values.mpr ⟨i, hget⟩, ?_⟩
    rw [← haddress, ← hendpoint]
  have hmatches : ∀ d e, e ∈ t.slots.values → targetOf e = { target with direction := d } →
      ∃ i, (i, e) ∈ matching targetOf t target := by
    intro d e he htarget
    obtain ⟨i, hget⟩ := Slots.mem_values.mp he
    refine ⟨i, mem_matching.mpr ⟨hget, ?_⟩⟩
    rw [htarget]
    exact ⟨rfl, rfl, .inr (.inr hdirection)⟩
  have htwo : (∃ e ∈ t.slots.values, targetOf e = { target with direction := .inbound }) ∧
      (∃ e ∈ t.slots.values, targetOf e = { target with direction := .outbound }) →
        2 ≤ (matching targetOf t target).length := by
    rintro ⟨⟨e, he, hin⟩, e', he', hout⟩
    obtain ⟨i, hi⟩ := hmatches .inbound e he hin
    obtain ⟨j, hj⟩ := hmatches .outbound e' he' hout
    by_contra hless
    rcases hlist : matching targetOf t target with _ | ⟨entry, _ | ⟨entry', rest⟩⟩
    · simp [hlist] at hi
    · rw [hlist] at hi hj
      have hsame : e = e' := congrArg Prod.snd
        ((List.mem_singleton.mp hi).trans (List.mem_singleton.mp hj).symm)
      rw [hsame, hout] at hin
      exact absurd (congrArg Target.direction hin) (by simp)
    · simp [hlist] at hless
  rcases Direction.apart (h.apart target) with hle | hboth | hboth
  · refine ⟨by omega, fun hlen => by omega, fun hhalves => ?_⟩
    have hle' := htwo hhalves
    omega
  all_goals
    have hlen : (matching targetOf t target).length = 2 := by
      rw [← hlength, hboth]
      rfl
    refine ⟨Nat.le_of_eq hlen, fun _ => ⟨?_, ?_⟩, fun _ => hlen⟩
    · exact hhalf .inbound (by simp [hboth])
    · exact hhalf .outbound (by simp [hboth])

end Table

/-! ## Changes of tables -/

variable {hands : Hands} {w w' : World}

namespace Table

/-- What a change does to the slots of a table, and what it records of that. -/
inductive SlotChange (t : Key Table) (w w' : World) : Prop where
  | kept (hslots : (w'.state.tables.get t).slots = (w.state.tables.get t).slots)
      (hadds : w.Adds (fun o => (∀ e, o ≠ .registered t e) ∧ o ≠ .tableGivenUp t) w')
  | installed {e : Key Endpoint} {s : State} (he : e.index < w.state.endpoints.size)
      (hnamed : t ∈ w.state.directory.tables.values)
      (hlookup : (w.state.tables.get t).lookup? w.state.targetOf (w.state.targetOf e) = none)
      (hslots : (w'.state.tables.get t).slots = (w.state.tables.get t).slots.insert e)
      (hhistory : w'.history = ⟨.registered t e, s⟩ :: w.history)
  | uninstalled {slot : Nat} {e : Key Endpoint} {m : Moment} {earlier : List Moment}
      (hslots : (w.state.tables.get t).slots.remove? slot =
        some (e, (w'.state.tables.get t).slots))
      (hhistory : w'.history = w.history) (hlast : w.history = m :: earlier)
      (hm : m.occurrence.Uninstalls t e (w.state.targetOf e))
  | cleared {s : State} (ht : t.index < w.state.tables.size)
      (hnamed : t ∉ w.state.directory.tables.values)
      (hslots : (w'.state.tables.get t).slots = .empty)
      (hhistory : w'.history = ⟨.tableGivenUp t, s⟩ :: w.history)

end Table

theorem Change.slotChange (h : Change hands w w') (hw : w.state.Sound) (t : Key Table) :
    Table.SlotChange t w w' := by
  cases h with
  | consult | addBus | addQueue | rename | leaveWaker | edit | detachHandler | detachData
  | changeData | keepHandle | takeHandle | lend | unlend | nameBatch | unnameBatch =>
      exact .kept rfl ⟨[], rfl, by simp⟩
  | createEndpoint | acquire | release | setToggle | advanceToggle | push | handOut | wake
  | build | giveUpEndpoint | handOver | attachHandler | attachData =>
      exact .kept rfl ⟨[_], rfl, by simp⟩
  | releaseLast => exact .kept rfl ⟨[_, _], rfl, by simp⟩
  | note v hfits =>
      refine .kept rfl ⟨[_], rfl, ?_⟩
      simp only [List.mem_singleton, forall_eq]
      constructor
      · rintro e rfl
        exact hfits.elim
      · rintro rfl
        exact hfits.elim
  | addTable =>
      refine .kept ?_ ⟨[], rfl, by simp⟩
      simp only [World.alter_state, State.addTable, Arena.get_push]
      split
      · next hnew =>
          subst hnew
          rw [Arena.get_nextKey]
      · rfl
  | @install t' e hspare hnamed hlookup =>
      by_cases heq : t = t'
      · subst heq
        refine .installed (hw.index_lt_of_spare hspare) hnamed hlookup ?_ rfl
        simp only [World.alter_state, World.noteUnder_state, State.install]
        rw [Arena.get_modify_self _ _ _ (hw.tablesExist _ hnamed)]
      · refine .kept ?_ ⟨[_], rfl, ?_⟩
        · simp only [World.alter_state, World.noteUnder_state, State.install]
          rw [Arena.get_modify_of_ne _ _ heq]
        · simp only [List.mem_singleton, forall_eq]
          refine ⟨fun e' h => heq (Occurrence.registered.inj h).1.symm, by simp⟩
  | @uninstall t' slot e s m earlier hslot hhistory hm =>
      obtain ⟨hremove, hothers⟩ := State.slots_uninstall hslot
      by_cases heq : t = t'
      · subst heq
        exact .uninstalled hremove rfl hhistory hm
      · exact .kept (hothers t heq) ⟨[], rfl, by simp⟩
  | @giveUpTable t' ht hnamed =>
      by_cases heq : t = t'
      · subst heq
        refine .cleared ht hnamed ?_ rfl
        simp only [World.alter_state, World.note_state, State.clearTable]
        rw [Arena.get_modify_self _ _ _ ht]
      · refine .kept ?_ ⟨[_], rfl, by simpa using Ne.symm heq⟩
        simp only [World.alter_state, World.note_state, State.clearTable]
        rw [Arena.get_modify_of_ne _ _ heq]

/-! ## Invariants -/

/-- After the occurrence an endpoint at the target is not installed in the table any more. -/
def Occurrence.Vacates (t : Key Table) (e : Key Endpoint) (target : Target)
    (o : Occurrence) : Prop :=
  o.Uninstalls t e target ∨ o = .tableGivenUp t

namespace Table

/-- The endpoint was installed in the table, and nothing has vacated its slot since. -/
def Registered (t : Key Table) (e : Key Endpoint) (target : Target) : List Moment → Prop
  | [] => False
  | m :: earlier =>
      m.occurrence = .registered t e ∨
        (¬ m.occurrence.Vacates t e target ∧ Registered t e target earlier)

theorem Registered.exists_mem {t : Key Table} {e : Key Endpoint} {target : Target}
    {history : List Moment} (h : Registered t e target history) :
    ∃ m ∈ history, m.occurrence = .registered t e := by
  induction history with
  | nil => exact h.elim
  | cons m earlier ih =>
      rcases h with h | ⟨-, h⟩
      · exact ⟨m, List.mem_cons_self, h⟩
      · obtain ⟨m', hm', ho⟩ := ih h
        exact ⟨m', List.mem_cons_of_mem m hm', ho⟩

/-- What was registered before what was recorded since stays so only if nothing vacated it. -/
theorem Registered.of_append {t : Key Table} {e : Key Endpoint} {target : Target}
    {since history : List Moment} (h : Registered t e target (since ++ history))
    (hsince : ∀ m ∈ since, m.occurrence ≠ .registered t e) :
    Registered t e target history ∧ ∀ m ∈ since, ¬ m.occurrence.Vacates t e target := by
  induction since with
  | nil => exact ⟨h, by simp⟩
  | cons m rest ih =>
      rcases h with h | ⟨hkept, h⟩
      · exact absurd h (hsince m List.mem_cons_self)
      · obtain ⟨hrest, hnone⟩ := ih h fun m' hm' => hsince m' (List.mem_cons_of_mem m hm')
        refine ⟨hrest, fun m' hm' => ?_⟩
        rcases List.mem_cons.mp hm' with rfl | hm'
        · exact hkept
        · exact hnone m' hm'

end Table

/-- No table holds endpoints that match, and what was registered is found. -/
structure World.Tabled (w : World) : Prop where
  exclusive : ∀ t, (w.state.tables.get t).Exclusive w.state.targetOf
  existing : ∀ m ∈ w.history, ∀ t e, m.occurrence = .registered t e →
    e.index < w.state.endpoints.size
  installed : ∀ t e, Table.Registered t e (w.state.targetOf e) w.history →
    ∃ slot, (w.state.tables.get t).slots.get? slot = some e

theorem tabled_empty : World.empty.Tabled where
  exclusive := by
    intro t i j e e' he
    simp [World.empty, State.empty, Arena.empty, Arena.get, default, Slots.get?, Slots.empty]
      at he
  existing := by simp [World.empty]
  installed := fun t e h => h.elim

/-- What is installed exists. -/
theorem State.Sound.index_lt_of_installed {s : State} (hs : s.Sound) {t : Key Table} {slot : Nat}
    {e : Key Endpoint} (h : (s.tables.get t).slots.get? slot = some e) :
    e.index < s.endpoints.size :=
  State.index_lt_of_references_pos (hs.counted.references_pos
    (State.handlesOn_pos_of_installed (Slots.mem_values.mpr ⟨slot, h⟩)))

theorem Change.targetOf_eq_of_installed (h : Change hands w w') (hw : w.state.Sound)
    {t : Key Table} {slot : Nat} {e : Key Endpoint}
    (he : (w.state.tables.get t).slots.get? slot = some e) :
    w'.state.targetOf e = w.state.targetOf e :=
  (h.targetOf_eq (hw.index_lt_of_installed he)).1

/-- What matches an installed endpoint is not installed beside it. -/
theorem Change.exclusive (h : Change hands w w') (hw : w.state.Sound) {t : Key Table}
    (hexclusive : (w.state.tables.get t).Exclusive w.state.targetOf) :
    (w'.state.tables.get t).Exclusive w'.state.targetOf := by
  -- what is left of an exclusive table is exclusive
  have hleft : (∀ slot e, (w'.state.tables.get t).slots.get? slot = some e →
      (w.state.tables.get t).slots.get? slot = some e) →
        (w'.state.tables.get t).Exclusive w'.state.targetOf := by
    intro hsub i j e e' he he' hmatches
    have hi := hsub i e he
    have hj := hsub j e' he'
    rw [h.targetOf_eq_of_installed hw hi, h.targetOf_eq_of_installed hw hj] at hmatches
    exact hexclusive i j e e' hi hj hmatches
  cases h.slotChange hw t with
  | kept hslots => exact hleft fun slot e he => hslots ▸ he
  | uninstalled hslots => exact hleft fun slot e he => (Slots.get?_of_get?_remove? hslots he).1
  | cleared _ _ hslots =>
      refine hleft fun slot e he => ?_
      rw [hslots] at he
      simp [Slots.get?, Slots.empty] at he
  | @installed x s hx _ hlookup hslots =>
      obtain ⟨k, -, hk, hothers⟩ := (hw.slotsProper t).exists_get?_insert x
      have hfresh : ∀ j e, (w.state.tables.get t).slots.get? j = some e →
          ¬ (w'.state.targetOf e).Matches (w'.state.targetOf x) := by
        intro j e he
        rw [h.targetOf_eq_of_installed hw he, (h.targetOf_eq hx).1]
        have hnone := Slots.findSlot?_eq_none.mp hlookup e (Slots.mem_values.mpr ⟨j, he⟩)
        simpa using hnone
      intro i j e e' he he' hmatches
      rw [hslots] at he he'
      by_cases hi : i = k <;> by_cases hj : j = k
      · exact hi.trans hj.symm
      · subst hi
        obtain rfl : x = e := Option.some.inj (hk.symm.trans he)
        rw [hothers j hj] at he'
        exact absurd hmatches.symm (hfresh j e' he')
      · subst hj
        obtain rfl : x = e' := Option.some.inj (hk.symm.trans he')
        rw [hothers i hi] at he
        exact absurd hmatches (hfresh i e he)
      · rw [hothers i hi] at he
        rw [hothers j hj] at he'
        rw [h.targetOf_eq_of_installed hw he, h.targetOf_eq_of_installed hw he'] at hmatches
        exact hexclusive i j e e' he he' hmatches

/-- Only what exists is registered. -/
theorem Change.existing (h : Change hands w w') (hw : w.state.Sound) (htabled : w.Tabled)
    {m : Moment} (hm : m ∈ w'.history) {t : Key Table} {e : Key Endpoint}
    (ho : m.occurrence = .registered t e) :
    e.index < w'.state.endpoints.size := by
  have hold : m ∈ w.history → e.index < w'.state.endpoints.size :=
    fun hm => (h.targetOf_eq (htabled.existing m hm t e ho)).2
  cases h.slotChange hw t with
  | kept hslots hadds =>
      obtain ⟨since, hsince, hnone⟩ := hadds
      rcases List.mem_append.mp (hsince ▸ hm) with hm | hm
      · exact absurd ho ((hnone m hm).1 e)
      · exact hold hm
  | installed hx _ hlookup hslots hhistory =>
      rcases List.mem_cons.mp (hhistory ▸ hm) with rfl | hm
      · obtain ⟨-, rfl⟩ := Occurrence.registered.inj ho
        exact (h.targetOf_eq hx).2
      · exact hold hm
  | uninstalled _ hhistory => exact hold (hhistory ▸ hm)
  | cleared _ _ _ hhistory =>
      rcases List.mem_cons.mp (hhistory ▸ hm) with rfl | hm
      · cases ho
      · exact hold hm

/-- What is registered is in its slot until that is vacated. -/
theorem Change.installed (h : Change hands w w') (hw : w.state.Sound) (htabled : w.Tabled)
    {t : Key Table} {e : Key Endpoint}
    (hregistered : Table.Registered t e (w'.state.targetOf e) w'.history) :
    ∃ slot, (w'.state.tables.get t).slots.get? slot = some e := by
  have hold : Table.Registered t e (w'.state.targetOf e) w.history →
      ∃ slot, (w.state.tables.get t).slots.get? slot = some e := by
    intro hregistered
    obtain ⟨m, hm, ho⟩ := hregistered.exists_mem
    rw [(h.targetOf_eq (htabled.existing m hm t e ho)).1] at hregistered
    exact htabled.installed t e hregistered
  cases h.slotChange hw t with
  | kept hslots hadds =>
      obtain ⟨since, hsince, hnone⟩ := hadds
      rw [hsince] at hregistered
      rw [hslots]
      exact hold (hregistered.of_append fun m hm => (hnone m hm).1 e).1
  | installed hx _ hlookup hslots hhistory =>
      rw [hhistory] at hregistered
      rw [hslots]
      rcases hregistered with ho | ⟨-, hregistered⟩
      · obtain ⟨-, rfl⟩ := Occurrence.registered.inj ho
        obtain ⟨k, -, hk, -⟩ := (hw.slotsProper t).exists_get?_insert _
        exact ⟨k, hk⟩
      · obtain ⟨slot, hslot⟩ := hold hregistered
        exact ⟨slot, Slots.get?_insert (hw.slotsProper t) _ hslot⟩
  | @uninstalled k x m earlier hslots hhistory hlast hm =>
      rw [hhistory] at hregistered
      obtain ⟨slot, hslot⟩ := hold hregistered
      have hne : k ≠ slot := by
        rintro rfl
        have hget := (Slots.remove?_eq_some.mp hslots).1
        obtain rfl : x = e := Option.some.inj (hget.symm.trans hslot)
        rw [hlast, h.targetOf_eq_of_installed hw hslot] at hregistered
        rcases hregistered with ho | ⟨hkept, -⟩
        · rw [ho] at hm
          exact hm.elim
        · exact hkept (.inl hm)
      exact ⟨slot, (Slots.get?_of_remove? hslots hne).trans hslot⟩
  | cleared _ _ _ hhistory =>
      rw [hhistory] at hregistered
      rcases hregistered with ho | ⟨hkept, -⟩
      · cases ho
      · exact absurd (.inr rfl) hkept

theorem Change.tabled (h : Change hands w w') (hw : w.state.Sound) (htabled : w.Tabled) :
    w'.Tabled where
  exclusive := fun t => h.exclusive hw (htabled.exclusive t)
  existing := fun _ hm _ _ ho => h.existing hw htabled hm ho
  installed := fun _ _ hregistered => h.installed hw htabled hregistered

theorem Changes.tabled (h : Changes Hands.empty World.empty w) : w.Tabled :=
  Changes.kept (fun _ _ => Change.tabled) h State.sound_empty tabled_empty

/-! ## Tables that were given up -/

/-- A table that was given up has no name and holds nothing. -/
def World.Abandons (w : World) : Prop :=
  ∀ m ∈ w.history, ∀ t, m.occurrence = .tableGivenUp t →
    t.index < w.state.tables.size ∧ t ∉ w.state.directory.tables.values ∧
      (w.state.tables.get t).slots.values = []

/-- A table that lost its name gets none again. -/
theorem Change.table_not_named (h : Change hands w w') {t : Key Table}
    (ht : t.index < w.state.tables.size) (hnamed : t ∉ w.state.directory.tables.values) :
    t ∉ w'.state.directory.tables.values := by
  cases h with
  | addTable name =>
      intro hmem
      rcases List.mem_cons.mp (Names.values_insert_subset _ _ _ hmem) with rfl | hmem
      · exact Nat.lt_irrefl _ ht
      · exact hnamed hmem
  | rename _ _ _ _ htables => exact fun hmem => hnamed (htables.subset hmem)
  | uninstall hslot =>
      obtain ⟨_, -, rfl⟩ := State.uninstall?_eq_some hslot
      exact hnamed
  | _ => exact hnamed

theorem Change.abandons (h : Change hands w w') (hw : w.state.Sound) (habandons : w.Abandons) :
    w'.Abandons := by
  intro m hm t ho
  have hlater : t.index < w.state.tables.size → t.index < w'.state.tables.size :=
    fun ht => Nat.lt_of_lt_of_le ht h.size_le.2
  cases h.slotChange hw t with
  | kept hslots hadds =>
      obtain ⟨since, hsince, hnone⟩ := hadds
      rcases List.mem_append.mp (hsince ▸ hm) with hm | hm
      · exact absurd ho (hnone m hm).2
      · obtain ⟨ht, hnamed, hempty⟩ := habandons m hm t ho
        exact ⟨hlater ht, h.table_not_named ht hnamed, hslots ▸ hempty⟩
  | installed _ hnamed _ _ hhistory =>
      rcases List.mem_cons.mp (hhistory ▸ hm) with rfl | hm
      · cases ho
      · exact absurd hnamed (habandons m hm t ho).2.1
  | uninstalled hslots hhistory =>
      obtain ⟨-, -, hempty⟩ := habandons m (hhistory ▸ hm) t ho
      have hperm := Slots.values_perm_of_remove? hslots
      rw [hempty] at hperm
      exact absurd hperm.nil_eq (List.cons_ne_nil _ _).symm
  | cleared ht hnamed hslots =>
      exact ⟨hlater ht, h.table_not_named ht hnamed, by rw [hslots]; rfl⟩

/-- Tables that were given up are never used again. -/
theorem Changes.abandons (h : Changes Hands.empty World.empty w) : w.Abandons :=
  Changes.kept (fun _ _ => Change.abandons) h State.sound_empty fun _ hm =>
    absurd hm List.not_mem_nil

namespace Session

/-- A registered endpoint is found by its target, also when user code looks for it amid a
command. -/
theorem Reachable.find?_registered (h : Reachable w) {t : Key Table} {e : Key Endpoint}
    (hregistered : Table.Registered t e (w.state.targetOf e) w.history) :
    ∃ w', Table.find? t (w.state.targetOf e) w = .ok (some e) w' := by
  have hw := h.ready
  have htabled := h.changes.tabled
  obtain ⟨slot, hslot⟩ := htabled.installed t e hregistered
  have hself : (slot, e) ∈ Table.matching w.state.targetOf (w.state.tables.get t)
      (w.state.targetOf e) :=
    Table.mem_matching.mpr ⟨hslot, .refl _⟩
  obtain ⟨⟨slot', e'⟩, hlookup⟩ : ∃ entry, (w.state.tables.get t).lookup? w.state.targetOf
      (w.state.targetOf e) = some entry := by
    rw [Table.lookup?_eq_head?]
    exact Option.isSome_iff_exists.mp (List.isSome_head?.mpr (List.ne_nil_of_mem hself))
  obtain ⟨hslot', hmatches⟩ := Table.lookup?_eq_some hlookup
  obtain rfl := htabled.exclusive t slot' slot e' e hslot' hslot hmatches
  obtain rfl : e' = e := Option.some.inj (hslot'.symm.trans hslot)
  exact Ensures.eq_ok (Table.ensures_find?_of_some (hw.sound.tablesFree t) hlookup
    (Table.references_pos_of_lookup? hw.sound hlookup) rfl)

/-- Something installed in a table matches the target. -/
def Taken (s : State) (t : Key Table) (target : Target) : Prop :=
  ∃ e ∈ (s.tables.get t).slots.values, (s.targetOf e).Matches target

theorem lookup?_eq_none_iff {s : State} {t : Key Table} {target : Target} :
    (s.tables.get t).lookup? s.targetOf target = none ↔ ¬ Taken s t target := by
  unfold Taken Table.lookup?
  rw [Slots.findSlot?_eq_none]
  simp

/-- An endpoint is refused if and only if something matches it, and a fault on the way comes from
the bus that is told of the refused endpoint. -/
theorem ensures_register {play : Player} (hplay : play.Fair) (hw : w.Ready hands)
    {table name : String} {t : Key Table} {handle : Handle}
    (ht : w.state.directory.tables.find? table = some t)
    (hhandle : w.state.directory.handles.find? name = some handle)
    (hloan : handle ∉ w.state.directory.loans) :
    Ensures (register play table name) w fun r w' =>
      match r with
      | .ok answer =>
          (answer = .error (.failed .alreadyRegistered) ↔
            Taken w.state t (w.state.targetOf handle.endpoint)) ∧
          (answer = .ok .done ↔ ¬ Taken w.state t (w.state.targetOf handle.endpoint)) ∧
          (answer = .ok .done →
            Table.Registered t handle.endpoint (w'.state.targetOf handle.endpoint) w'.history)
      | .error fault =>
          Taken w.state t (w.state.targetOf handle.endpoint) ∧ fault.Raised := by
  have htake : Moves hands [] [.reference handle.endpoint] w (w.alter (·.takeHandle name)) :=
    .takeHandle hw.sound hhandle hloan
  have hready := htake.ready hw
  unfold register withTable takeHandle
  simp only [ensures_bind, ensures_getState, then_ok, ht, hhandle, Directory.OnLoan, hloan,
    if_false, ensures_modifyState, ensures_pure]
  by_cases htaken : Taken w.state t (w.state.targetOf handle.endpoint)
  · obtain ⟨entry, hlookup⟩ := Option.ne_none_iff_exists'.mp
      fun hnone => lookup?_eq_none_iff.mp hnone htaken
    have hrefused : Moves hands [] [] (w.alter (·.takeHandle name))
        ((w.alter (·.takeHandle name)).noteUnder (.table t)
          (.registrationRefused t handle.endpoint)) :=
      .noteAside _ ⟨entry, hlookup⟩ rfl fun h => h.elim
    refine Table.ensures_register_of_matching (hready.sound.tablesFree t) hlookup ?_
    apply Ensures.mono (Endpoint.release_orderly hplay (hrefused.ready hready)
      htake.spare_pos)
    intro r w' hr
    cases r with
    | error fault => exact ⟨htaken, hr.2⟩
    | ok _ =>
        exact ⟨⟨fun _ => htaken, fun _ => rfl⟩, ⟨by simp, fun h => absurd htaken h⟩, by simp⟩
  · refine Table.ensures_register_of_vacant (hready.sound.tablesFree t)
      (lookup?_eq_none_iff.mpr htaken) ?_
    rw [then_ok]
    exact ⟨⟨by simp, fun h => absurd h htaken⟩, ⟨fun _ => htaken, fun _ => rfl⟩,
      fun _ => .inl rfl⟩

/-- Wherever user code looks at a table, no two endpoints in it match.  So a one-way target and the
target of an installed endpoint match one of them at most, and a bidirectional target two at most,
namely its one-way halves.  An endpoint is refused if and only if something matches it, and what
was registered is found by its target until it is uninstalled. -/
theorem Reachable.tables_exclusive (h : Reachable w) (t : Key Table) :
    (∀ i j e e', (w.state.tables.get t).slots.get? i = some e →
      (w.state.tables.get t).slots.get? j = some e' → i ≠ j →
        ¬ (w.state.targetOf e).Matches (w.state.targetOf e')) ∧
    (∀ target : Target,
      (target.direction ≠ .both ∨
        ∃ e ∈ (w.state.tables.get t).slots.values, w.state.targetOf e = target) →
          (Table.matching w.state.targetOf (w.state.tables.get t) target).length ≤ 1) ∧
    (∀ target : Target, target.direction = .both →
      (Table.matching w.state.targetOf (w.state.tables.get t) target).length ≤ 2 ∧
        ((Table.matching w.state.targetOf (w.state.tables.get t) target).length = 2 ↔
          (∃ e ∈ (w.state.tables.get t).slots.values,
            w.state.targetOf e = { target with direction := .inbound }) ∧
          ∃ e ∈ (w.state.tables.get t).slots.values,
            w.state.targetOf e = { target with direction := .outbound })) ∧
    (∀ (limit : Nat) (table name : String) (handle : Handle),
      w.state.directory.tables.find? table = some t →
      w.state.directory.handles.find? name = some handle →
      handle ∉ w.state.directory.loans →
        Ensures (register (player limit) table name) w fun r w' =>
          match r with
          | .ok answer =>
              (answer = .error (.failed .alreadyRegistered) ↔
                Taken w.state t (w.state.targetOf handle.endpoint)) ∧
              (answer = .ok .done ↔ ¬ Taken w.state t (w.state.targetOf handle.endpoint)) ∧
              (answer = .ok .done →
                Table.Registered t handle.endpoint (w'.state.targetOf handle.endpoint)
                  w'.history)
          | .error fault =>
              Taken w.state t (w.state.targetOf handle.endpoint) ∧ fault.Raised) ∧
    ∀ e, Table.Registered t e (w.state.targetOf e) w.history →
      ∃ w', Table.find? t (w.state.targetOf e) w = .ok (some e) w' := by
  have hexclusive := h.changes.tabled.exclusive t
  refine ⟨fun i j e e' hi hj hne hmatches => hne (hexclusive i j e e' hi hj hmatches),
    fun target hcase => ?_, fun target hboth => hexclusive.length_matching_of_both hboth,
    fun limit table name handle ht hhandle hloan =>
      ensures_register (player_fair limit) h.ready ht hhandle hloan,
    fun e hregistered => h.find?_registered hregistered⟩
  rcases hcase with hdirection | ⟨e, he, htarget⟩
  · exact hexclusive.length_matching_le_one_of_direction hdirection
  · obtain ⟨slot, hslot⟩ := Slots.mem_values.mp he
    exact hexclusive.length_matching_le_one_of_installed hslot htarget

/-- Both halves of a bidirectional target stand beside each other. -/
theorem tables_exclusive_halves :
    ((after 1
      [.addBus "hub" (.bare Script), .addTable "table",
        .addEndpoint "hub" ⟨⟨1, 2, .inbound⟩, .bulk, 64⟩ "in", .register "table" "in",
        .addEndpoint "hub" ⟨⟨1, 2, .outbound⟩, .bulk, 64⟩ "out", .register "table" "out"]).state
        |> fun s => (Table.matching s.targetOf (s.tables.get ⟨0⟩) ⟨1, 2, .both⟩).length) = 2 :=
  (((Reachable.idle (idle_after 1 _)).tables_exclusive ⟨0⟩).2.2.1 ⟨1, 2, .both⟩ rfl).2.mpr
    ⟨by decide, by decide⟩

end Session

end UsbTransfer
