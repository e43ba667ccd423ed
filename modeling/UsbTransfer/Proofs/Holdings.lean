import UsbTransfer.Proofs.Evictions
import UsbTransfer.Proofs.Toggles

/-!
# What operations do to the set of a table

Each operation on a table is described by what the table holds before and afterwards, whatever the
slots are.  References move between the table and its user without being counted anew, unless an
endpoint is found or refused.  Only a look-up for a bidirectional target with both of its one-way
halves installed depends on the slots: the lower one is taken then.
-/

namespace UsbTransfer

open Run

namespace State

variable {s s' s'' : State} {t : Key Table} {target : Target} {held held' : List (Key Endpoint)}
  {references references' : Key Endpoint → Nat}

/-- The number of references on an endpoint. -/
def referencesOn (s : State) (e : Key Endpoint) : Nat :=
  (s.endpoints.get e).references

/-- The target is bidirectional, and both of its one-way halves are installed. -/
def Ambiguous (s : State) (t : Key Table) (target : Target) : Prop :=
  target.direction = .both ∧
    (∃ e ∈ s.installed t, s.targetOf e = { target with direction := .inbound }) ∧
      ∃ e ∈ s.installed t, s.targetOf e = { target with direction := .outbound }

/-- What a look-up yields: an installed endpoint that matches the target if there is one.  It is
the only one unless the target is ambiguous, and the one in the lowest slot in any case. -/
def Picks (s : State) (t : Key Table) (target : Target) : Option (Key Endpoint) → Prop
  | none => ¬ Session.Taken s t target
  | some e => ∃ slot, (s.tables.get t).slots.get? slot = some e ∧
      (s.targetOf e).Matches target ∧ ∀ slot' e', (s.tables.get t).slots.get? slot' = some e' →
        (s.targetOf e').Matches target → slot ≤ slot' ∧ (e' = e ∨ s.Ambiguous t target)

theorem Picks.mem {e : Key Endpoint} (h : s.Picks t target (some e)) :
    e ∈ s.installed t ∧ (s.targetOf e).Matches target := by
  obtain ⟨slot, hslot, hmatches, -⟩ := h
  exact ⟨Slots.mem_values.mpr ⟨slot, hslot⟩, hmatches⟩

theorem Picks.eq_of_matches {e e' : Key Endpoint} (h : s.Picks t target (some e))
    (hclear : ¬ s.Ambiguous t target) (he' : e' ∈ s.installed t)
    (hmatches : (s.targetOf e').Matches target) :
    e' = e := by
  obtain ⟨slot, -, -, hlowest⟩ := h
  obtain ⟨slot', hslot'⟩ := Slots.mem_values.mp he'
  exact (hlowest slot' e' hslot' hmatches).2.resolve_right hclear

/-- A look-up goes by the order of the slots, which only tells for an ambiguous target. -/
theorem picks_of_lookup? (hexclusive : (s.tables.get t).Exclusive s.targetOf) {slot : Nat}
    {e : Key Endpoint} (h : (s.tables.get t).lookup? s.targetOf target = some (slot, e)) :
    s.Picks t target (some e) := by
  have hsorted : (Table.matching s.targetOf (s.tables.get t) target).Pairwise
      fun a b => a.1 < b.1 :=
    (s.tables.get t).slots.entries_pairwise.filter _
  rw [Table.lookup?_eq_head?] at h
  obtain ⟨rest, hrest⟩ := List.head?_eq_some_iff.mp h
  rw [hrest] at hsorted
  obtain ⟨hget, hmatches⟩ := Table.mem_matching.mp (hrest ▸ List.mem_cons_self)
  refine ⟨slot, hget, hmatches, fun slot' e' hget' hmatches' => ?_⟩
  have hmem := Table.mem_matching.mpr ⟨hget', hmatches'⟩
  rw [hrest] at hmem
  rcases List.mem_cons.mp hmem with heq | hlater
  · obtain ⟨rfl, rfl⟩ := Prod.mk.inj heq
    exact ⟨Nat.le_refl _, .inl rfl⟩
  · refine ⟨Nat.le_of_lt ((List.pairwise_cons.mp hsorted).1 _ hlater), .inr ?_⟩
    have htwo : 2 ≤ (Table.matching s.targetOf (s.tables.get t) target).length := by
      rw [hrest, List.length_cons]
      exact Nat.succ_le_succ (List.length_pos_of_mem hlater)
    by_cases hboth : target.direction = .both
    · obtain ⟨hle, hhalves⟩ := hexclusive.length_matching_of_both hboth
      exact ⟨hboth, hhalves.mp (Nat.le_antisymm hle htwo)⟩
    · have hone := hexclusive.length_matching_le_one_of_direction hboth
      omega

/-- What is found is what a look-up yields. -/
theorem picks_found? (hexclusive : (s.tables.get t).Exclusive s.targetOf) :
    s.Picks t target (Table.found? s t target) := by
  unfold Table.found?
  cases hlookup : (s.tables.get t).lookup? s.targetOf target with
  | none => exact Session.lookup?_eq_none_iff.mp hlookup
  | some entry => exact picks_of_lookup? hexclusive hlookup

/-- Tables hold what they held, and endpoints have their targets and their references. -/
structure Stands (s s' : State) : Prop where
  slots : ∀ t, (s'.tables.get t).slots = (s.tables.get t).slots
  targets : ∀ e, s'.targetOf e = s.targetOf e
  references : ∀ e, s'.referencesOn e = s.referencesOn e

theorem Stands.refl (s : State) : s.Stands s :=
  ⟨fun _ => rfl, fun _ => rfl, fun _ => rfl⟩

theorem Stands.trans (h : s.Stands s') (h' : s'.Stands s'') : s.Stands s'' :=
  ⟨fun t => (h'.slots t).trans (h.slots t), fun e => (h'.targets e).trans (h.targets e),
    fun e => (h'.references e).trans (h.references e)⟩

theorem stands_lockTable (s : State) (t : Key Table) (lock : Lock) :
    s.Stands (s.lockTable t lock) :=
  ⟨fun t' => s.slots_lockTable t t' lock, fun _ => rfl, fun _ => rfl⟩

/-- A table holds these endpoints and other tables what they held.  Endpoints have their targets,
and so many references are on each of them. -/
structure Leaves (t : Key Table) (held : List (Key Endpoint)) (references : Key Endpoint → Nat)
    (s s' : State) : Prop where
  held : (s'.installed t).Perm held
  others : ∀ t', t' ≠ t → (s'.tables.get t').slots = (s.tables.get t').slots
  targets : ∀ e, s'.targetOf e = s.targetOf e
  references : ∀ e, s'.referencesOn e = references e

theorem Stands.leaves (h : s.Stands s') (t : Key Table) :
    s.Leaves t (s.installed t) s.referencesOn s' :=
  ⟨List.Perm.of_eq (congrArg Slots.values (h.slots t)), fun t' _ => h.slots t', h.targets,
    h.references⟩

theorem Stands.before (h : s.Stands s') (h' : s'.Leaves t held references s'') :
    s.Leaves t held references s'' :=
  ⟨h'.held, fun t' ht' => (h'.others t' ht').trans (h.slots t'),
    fun e => (h'.targets e).trans (h.targets e), h'.references⟩

theorem Leaves.stands (h : s.Leaves t held references s') (h' : s'.Stands s'') :
    s.Leaves t held references s'' :=
  ⟨(List.Perm.of_eq (congrArg Slots.values (h'.slots t))).trans h.held,
    fun t' ht' => (h'.slots t').trans (h.others t' ht'),
    fun e => (h'.targets e).trans (h.targets e), fun e => (h'.references e).trans (h.references e)⟩

theorem Leaves.congr (h : s.Leaves t held references s') (hheld : held.Perm held')
    (hreferences : ∀ e, references e = references' e) :
    s.Leaves t held' references' s' :=
  ⟨h.held.trans hheld, h.others, h.targets, fun e => (h.references e).trans (hreferences e)⟩

/-- Of a table that gave endpoints back the others are left. -/
theorem Evicts.leaves {gone : List (Key Endpoint)} (h : s.Evicts t gone s') :
    s.Leaves t ((s.installed t).filter (· ∉ gone)) s.referencesOn s' where
  held := .of_eq h.installed_eq
  others := h.others
  targets := fun e => congrFun h.targetOf_eq e
  references := fun e => by rw [referencesOn, h.endpoints]; rfl

/-- The references on one endpoint change. -/
theorem leaves_modify (t : Key Table) {e : Key Endpoint} {f : Endpoint → Endpoint}
    (he : e.index < s.endpoints.size) (htables : s'.tables = s.tables)
    (hendpoints : s'.endpoints = s.endpoints.modify e f)
    (htarget : ∀ x, (f x).target = x.target) :
    s.Leaves t (s.installed t)
      (fun x => if x = e then (f (s.endpoints.get e)).references else s.referencesOn x) s' where
  held := by rw [installed, htables]
  others := fun _ _ => by rw [htables]
  targets := by
    intro x
    unfold targetOf
    rw [hendpoints]
    exact s.endpoints.apply_get_modify e x f Endpoint.target htarget
  references := by
    intro x
    unfold referencesOn
    rw [hendpoints, Arena.get_modify]
    simp only [he, and_true]
    split <;> rfl

end State

/-! ## Operations -/

variable {hands : Hands} {w w' : World} {t : Key Table} {e : Key Endpoint}

namespace Table

variable {α : Type}

theorem stands_locking {m : Run α} (t : Key Table)
    (hm : Follows (fun w w' => w.state.Stands w'.state) m) :
    Follows (fun w w' => w.state.Stands w'.state) (locking t m) := by
  have hset : ∀ lock, Follows (fun w w' => w.state.Stands w'.state)
      (modifyState (·.lockTable t lock)) :=
    fun lock w => .single (w.state.stands_lockTable t lock)
  refine follows_getState_bind fun s => ?_
  split
  · exact follows_throw _
  · exact follows_throw _
  · refine (hset .held).bind fun _ => hm.attempt.bind fun r => ?_
    cases r with
    | ok a => exact (hset .free).bind fun _ => follows_pure a
    | error fault => exact (hset .poisoned).bind fun _ => follows_throw fault

theorem stands_resetToggles (t : Key Table) (target : Target) (scope : ResetScope) :
    Follows (fun w w' => w.state.Stands w'.state) (resetToggles t target scope) := by
  have hrecord : ∀ o, Follows (fun w w' : World => w.state.Stands w'.state) (record o) :=
    fun o w => .single (.refl w.state)
  refine stands_locking t (follows_getState_bind fun s => ?_)
  refine Follows.bind (Follows.forM fun e _ => Follows.bind (fun w => .single ?_)
    fun _ => hrecord _) fun _ => (hrecord _).bind fun _ => follows_pure _
  refine ⟨fun _ => rfl, fun x => ?_, fun x => ?_⟩
  · exact w.state.endpoints.apply_get_modify e x _ Endpoint.target fun _ => rfl
  · exact w.state.endpoints.apply_get_modify e x _ Endpoint.references fun _ => rfl

theorem Stands.of_follows {m : Run α}
    (hm : Follows (fun w w' => w.state.Stands w'.state) m) (w : World) :
    Ensures m w fun _ w' => w.state.Stands w'.state := by
  refine Ensures.mono (hm w) fun _ w' h => ?_
  induction h with
  | refl => exact .refl _
  | tail _ hlast ih => exact ih.trans hlast

/-- The toggles that a reset reaches are those of the installed endpoints that it is about. -/
theorem leaves_resetToggles (hw : w.Ready hands) (target : Target) (scope : ResetScope) :
    Ensures (resetToggles t target scope) w fun r w' =>
      r = .ok ((w.state.installed t).countP fun e => scope.Reaches target (w.state.targetOf e)) ∧
      w.state.Leaves t (w.state.installed t) w.state.referencesOn w'.state ∧
      ∀ e, w'.state.toggleOf e =
        if e ∈ w.state.installed t ∧ scope.Reaches target (w.state.targetOf e) then false
        else w.state.toggleOf e := by
  refine Ensures.mono (Ensures.and (Table.rewinds_resetToggles (hw.sound.tablesFree t) target scope
    rfl) (Stands.of_follows (stands_resetToggles t target scope) w)) ?_
  rintro r w' ⟨⟨rfl, hrewinds⟩, hstands⟩
  refine ⟨?_, hstands.leaves t, fun e => ?_⟩
  · rw [List.countP_eq_length_filter]
    rfl
  · rw [hrewinds.toggles]
    unfold reached
    simp only [List.mem_filter, decide_eq_true_eq]

theorem leaves_find? (hw : w.Ready hands)
    (hexclusive : (w.state.tables.get t).Exclusive w.state.targetOf) (target : Target) :
    Ensures (find? t target) w fun r w' =>
      ∃ e?, r = .ok e? ∧ w.state.Picks t target e? ∧
        w.state.Leaves t (w.state.installed t)
          (fun x => w.state.referencesOn x + if e? = some x then 1 else 0) w'.state := by
  have hfree := hw.sound.tablesFree t
  cases hlookup : (w.state.tables.get t).lookup? w.state.targetOf target with
  | none =>
      refine ensures_find?_of_none hfree hlookup
        ⟨none, rfl, Session.lookup?_eq_none_iff.mp hlookup, ?_⟩
      exact ((State.Stands.refl _).leaves t).congr (List.Perm.refl _) fun _ => by simp
  | some entry =>
      obtain ⟨slot, e⟩ := entry
      have hreferences := references_pos_of_lookup? hw.sound hlookup
      refine ensures_find?_of_some hfree hlookup hreferences
        ⟨some e, rfl, State.picks_of_lookup? hexclusive hlookup, ?_⟩
      have hgain : w.state.Leaves t (w.state.installed t) _ (w.state.gainReference e) :=
        State.leaves_modify t (State.index_lt_of_references_pos hreferences) rfl rfl fun _ => rfl
      refine hgain.congr (List.Perm.refl _) fun x => ?_
      by_cases hx : x = e
      · subst hx
        simp [State.referencesOn]
      · simp [hx, Ne.symm hx]

theorem leaves_remove (hw : w.Ready hands)
    (hexclusive : (w.state.tables.get t).Exclusive w.state.targetOf) (target : Target) :
    Ensures (remove t target) w fun r w' =>
      ∃ e?, r = .ok (e?.elim (.error .notRegistered) .ok) ∧ w.state.Picks t target e? ∧
        w.state.Leaves t ((w.state.installed t).filter fun x => e? ≠ some x)
          w.state.referencesOn w'.state := by
  apply Ensures.mono (ensures_remove_evicts hw hexclusive target)
  rintro r w' ⟨rfl, hevicts⟩
  refine ⟨_, rfl, State.picks_found? hexclusive, hevicts.leaves.congr (.of_eq ?_) fun _ => rfl⟩
  refine List.filter_congr fun e _ => ?_
  simp only [Option.mem_toList]

theorem leaves_removeDevice (hw : w.Ready hands)
    (hexclusive : (w.state.tables.get t).Exclusive w.state.targetOf) (address : UInt8) :
    Ensures (removeDevice t address) w fun r w' =>
      ∃ es, r = .ok es ∧
        es.Perm ((w.state.installed t).filter fun e => (w.state.targetOf e).address = address) ∧
        w.state.Leaves t
          ((w.state.installed t).filter fun e => (w.state.targetOf e).address ≠ address)
          w.state.referencesOn w'.state := by
  apply Ensures.mono (ensures_removeDevice_evicts hw hexclusive address)
  rintro r w' ⟨rfl, hevicts, -⟩
  refine ⟨_, rfl, .refl _, hevicts.leaves.congr (.of_eq ?_) fun _ => rfl⟩
  refine List.filter_congr fun e he => ?_
  simp [State.onDevice, he]

end Table

end UsbTransfer
