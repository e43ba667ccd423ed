import UsbTransfer.Proofs.Alternation
import UsbTransfer.Proofs.Removals

/-!
# Resets of toggles by a table

A table that resets toggles sets those of the endpoints that it selects to DATA0 and changes nothing
else, so that what a reset does to a state is told by the endpoints that it selects.  Which they are
depends on the installed endpoints and their targets only and never on toggles: resets are
idempotent and commute, and a device is reset as well by resetting its endpoints one by one, each of
which selects itself alone since no two installed endpoints match.
-/

namespace UsbTransfer

open Run

namespace State

variable {s : State} {e : Key Endpoint} {es es' : List (Key Endpoint)}

/-- The state with the toggles of some endpoints at DATA0. -/
def rewound (s : State) (es : List (Key Endpoint)) : State :=
  { s with
    endpoints := es.foldl (fun a e => a.modify e fun x => { x with toggle := false }) s.endpoints }

theorem rewound_cons (s : State) (e : Key Endpoint) (es : List (Key Endpoint)) :
    s.rewound (e :: es) = (s.rewound [e]).rewound es :=
  rfl

theorem rewound_append (s : State) (es es' : List (Key Endpoint)) :
    s.rewound (es ++ es') = (s.rewound es).rewound es' := by
  unfold rewound
  rw [List.foldl_append]

@[simp]
theorem size_rewound (s : State) (es : List (Key Endpoint)) :
    (s.rewound es).endpoints.size = s.endpoints.size := by
  induction es generalizing s with
  | nil => rfl
  | cons e es ih =>
      rw [rewound_cons, ih]
      exact s.endpoints.size_modify e _

/-- What does not exist is blank, and its toggle is DATA0 anyway. -/
theorem get_rewound (s : State) (es : List (Key Endpoint)) (e : Key Endpoint) :
    (s.rewound es).endpoints.get e =
      { s.endpoints.get e with toggle := if e ∈ es then false else s.toggleOf e } := by
  induction es generalizing s with
  | nil => rfl
  | cons e' es ih =>
      have hfirst : (s.rewound [e']).endpoints.get e =
          { s.endpoints.get e with toggle := if e = e' then false else s.toggleOf e } := by
        change (s.endpoints.modify e' fun x => { x with toggle := false }).get e = _
        by_cases heq : e = e'
        · subst heq
          rw [if_pos rfl]
          by_cases hsize : e.index < s.endpoints.size
          · exact s.endpoints.get_modify_self e _ hsize
          · rw [Arena.modify_of_size_le _ _ _ (Nat.not_lt.mp hsize),
              Arena.get_of_size_le _ _ (Nat.not_lt.mp hsize)]
            rfl
        · rw [if_neg heq]
          exact s.endpoints.get_modify_of_ne _ heq
      rw [rewound_cons, ih, toggleOf, hfirst]
      by_cases hmem : e ∈ es <;> by_cases heq : e = e' <;> simp [hmem, heq]

theorem toggleOf_rewound (s : State) (es : List (Key Endpoint)) (e : Key Endpoint) :
    (s.rewound es).toggleOf e = if e ∈ es then false else s.toggleOf e := by
  rw [toggleOf, get_rewound]

/-- It does not matter in which order endpoints are reset, nor how often. -/
theorem rewound_congr (h : ∀ e, e ∈ es ↔ e ∈ es') : s.rewound es = s.rewound es' := by
  have hendpoints : (s.rewound es).endpoints = (s.rewound es').endpoints := by
    apply Arena.ext_get
    · rw [size_rewound, size_rewound]
    · intro e
      simp only [get_rewound, h]
  exact congrArg (fun endpoints => { s with endpoints := endpoints }) hendpoints

theorem rewound_rewound_self (s : State) (es : List (Key Endpoint)) :
    (s.rewound es).rewound es = s.rewound es := by
  rw [← rewound_append]
  apply rewound_congr
  simp

theorem rewound_comm (s : State) (es es' : List (Key Endpoint)) :
    (s.rewound es).rewound es' = (s.rewound es').rewound es := by
  rw [← rewound_append, ← rewound_append]
  apply rewound_congr
  intro e
  rw [List.mem_append, List.mem_append, or_comm]

theorem targetOf_rewound (s : State) (es : List (Key Endpoint)) :
    (s.rewound es).targetOf = s.targetOf := by
  funext e
  rw [targetOf, get_rewound]
  rfl

/-- The installed endpoints that a reset selects, in the order of their slots. -/
def selected (s : State) (t : Key Table) (target : Target) (scope : ResetScope) :
    List (Key Endpoint) :=
  (s.tables.get t).reached s.targetOf target scope

theorem mem_selected {t : Key Table} {target : Target} {scope : ResetScope} :
    e ∈ s.selected t target scope ↔
      e ∈ s.installed t ∧ scope.Reaches target (s.targetOf e) := by
  rw [selected, Table.reached, List.mem_filter, decide_eq_true_iff]

/-- Toggles have no part in what is selected. -/
theorem selected_rewound (s : State) (es : List (Key Endpoint)) (t : Key Table) (target : Target)
    (scope : ResetScope) :
    (s.rewound es).selected t target scope = s.selected t target scope := by
  rw [selected, targetOf_rewound]
  rfl

theorem selected_setToggle (w : World) (e : Key Endpoint) (value : Bool) (t : Key Table)
    (target : Target) (scope : ResetScope) :
    (w.setToggle e value).state.selected t target scope = w.state.selected t target scope := by
  have htargets : (w.setToggle e value).state.targetOf = w.state.targetOf := by
    funext x
    exact w.state.endpoints.apply_get_modify e x (fun x => { x with toggle := value })
      Endpoint.target fun _ => rfl
  rw [selected, htargets]
  rfl

end State

namespace World

theorem state_resetEach (w : World) (es : List (Key Endpoint)) :
    (w.resetEach es).state = w.state.rewound es := by
  induction es generalizing w with
  | nil => rfl
  | cons e es ih =>
      rw [resetEach_cons, ih, State.rewound_cons]
      rfl

end World

namespace Table

variable {w : World} {t : Key Table}

/-- A reset has no other effect than on the toggles of what it selects. -/
theorem ensures_resetToggles_rewound (hfree : (w.state.tables.get t).lock = .free)
    (target : Target) (scope : ResetScope) :
    Ensures (resetToggles t target scope) w fun r w' =>
      r = .ok (w.state.selected t target scope).length ∧
        w'.state = w.state.rewound (w.state.selected t target scope) := by
  have hlocked : (w.state.lockTable t .held).selected t target scope =
      w.state.selected t target scope := by
    rw [State.selected, Table.reached, State.slots_lockTable]
    rfl
  have hbody : ∀ es, es = w.state.selected t target scope → Ensures (do
      es.forM fun e => Endpoint.setToggle e false
      record (.tableReset t es)
      return es.length) (w.alter (·.lockTable t .held)) fun r w' =>
        r = .ok (w.state.selected t target scope).length ∧
          w'.state = (w.state.lockTable t .held).rewound (w.state.selected t target scope) := by
    rintro es rfl
    rw [ensures_bind]
    apply Ensures.mono (Endpoint.ensures_resetEach_eq _ _)
    rintro r w' ⟨rfl, rfl⟩
    exact ⟨rfl, World.state_resetEach _ _⟩
  unfold resetToggles locking
  rw [ensures_guarding hfree, ensures_bind, ensures_getState, then_ok]
  apply Ensures.mono (hbody _ hlocked)
  rintro r w' ⟨rfl, hstate⟩
  refine ⟨rfl, ?_⟩
  -- the lock is a matter of tables, and toggles are one of endpoints
  have hrewound : w.state.rewound (w.state.selected t target scope) =
      ((w.state.lockTable t .held).rewound (w.state.selected t target scope)).lockTable t .free :=
    congrArg (·.rewound (w.state.selected t target scope)) (State.unlockTable hfree).symm
  rw [hrewound, ← hstate]
  rfl

/-- Toggles may be set before. -/
theorem ensures_setToggles (toggles : List (Key Endpoint × Bool)) :
    Ensures (toggles.forM fun (e, value) => Endpoint.setToggle e value) w fun r w' =>
      r = .ok () ∧ w'.state.tables = w.state.tables ∧
        ∀ target scope, w'.state.selected t target scope = w.state.selected t target scope := by
  induction toggles generalizing w with
  | nil => exact ⟨rfl, rfl, fun _ _ => rfl⟩
  | cons first rest ih =>
      obtain ⟨e, value⟩ := first
      change Ensures (Endpoint.setToggle e value >>= fun _ =>
        rest.forM fun (e, value) => Endpoint.setToggle e value) _ _
      rw [ensures_bind, Endpoint.ensures_setToggle, then_ok]
      apply Ensures.mono (ih (w := w.setToggle e value))
      rintro r w' ⟨rfl, htables, hselected⟩
      refine ⟨rfl, htables, fun target scope => ?_⟩
      rw [hselected, State.selected_setToggle]

/-- Endpoints that select themselves alone are reset one by one. -/
theorem ensures_resetEach_rewound {order : List (Key Endpoint)}
    {targetOf : Key Endpoint → Target} (hfree : (w.state.tables.get t).lock = .free)
    (halone : ∀ e ∈ order, w.state.selected t (targetOf e) .endpoint = [e]) :
    Ensures (order.mapM fun e => resetToggles t (targetOf e) .endpoint) w fun r w' =>
      r = .ok (order.map fun _ => 1) ∧ w'.state = w.state.rewound order := by
  induction order generalizing w with
  | nil => exact ⟨rfl, rfl⟩
  | cons e rest ih =>
      rw [List.mapM_cons, ensures_bind]
      apply Ensures.mono (ensures_resetToggles_rewound hfree (targetOf e) .endpoint)
      rw [halone e List.mem_cons_self]
      rintro r w₁ ⟨rfl, hfirst⟩
      have hfree₁ : (w₁.state.tables.get t).lock = .free := by
        rw [hfirst]
        exact hfree
      have halone₁ : ∀ x ∈ rest, w₁.state.selected t (targetOf x) .endpoint = [x] := by
        intro x hx
        rw [hfirst, State.selected_rewound]
        exact halone x (List.mem_cons_of_mem e hx)
      rw [then_ok, ensures_bind]
      apply Ensures.mono (ih hfree₁ halone₁)
      rintro r w₂ ⟨rfl, hrest⟩
      refine ⟨rfl, ?_⟩
      rw [hrest, hfirst, ← State.rewound_cons]

end Table

namespace World

/-- What the resets of a table do to toggles, how many they select, and how they combine. -/
structure ResetsExactly (w : World) (t : Key Table) : Prop where
  /-- What is selected is installed. -/
  selects_nothing : ∀ target, w.state.selected t target .nothing = []
  selects_matching : ∀ target, w.state.selected t target .endpoint =
    (w.state.installed t).filter fun e => (w.state.targetOf e).Matches target
  selects_device : ∀ target : Target,
    w.state.selected t target .device = w.state.onDevice t target.address
  /-- Exactly what is selected has the toggle DATA0 then, and each of it counts once.  Endpoints
  are otherwise as they were, with their references, and so are tables and all else. -/
  exactly : ∀ (target : Target) (scope : ResetScope),
    (w.state.selected t target scope).Nodup ∧
    Ensures (Table.resetToggles t target scope) w fun r w' =>
      r = .ok (w.state.selected t target scope).length ∧
      (∀ e, w'.state.toggleOf e =
        if e ∈ w.state.selected t target scope then false else w.state.toggleOf e) ∧
      (∀ e, w'.state.endpoints.get e =
        { w.state.endpoints.get e with toggle := w'.state.toggleOf e }) ∧
      w'.state = { w.state with endpoints := w'.state.endpoints }
  /-- The same endpoints are reset, and the same number is told, whatever toggles were before. -/
  whatever : ∀ (toggles : List (Key Endpoint × Bool)) (target : Target) (scope : ResetScope),
    Ensures (toggles.forM fun (e, value) => Endpoint.setToggle e value) w fun _ w₁ =>
      Ensures (Table.resetToggles t target scope) w₁ fun r w₂ =>
        r = .ok (w.state.selected t target scope).length ∧
        ∀ e, w₂.state.toggleOf e =
          if e ∈ w.state.selected t target scope then false else w₁.state.toggleOf e
  at_most_one : ∀ target : Target,
    target.direction ≠ .both ∨ (∃ e ∈ w.state.installed t, w.state.targetOf e = target) →
      (w.state.selected t target .endpoint).length ≤ 1
  /-- Two are selected where both halves of a bidirectional target are installed, and there only. -/
  at_most_two : ∀ target : Target,
    (w.state.selected t target .endpoint).length ≤ 2 ∧
      ((w.state.selected t target .endpoint).length = 2 ↔ target.direction = .both ∧
        (∃ e ∈ w.state.installed t,
          w.state.targetOf e = { target with direction := .inbound }) ∧
        ∃ e ∈ w.state.installed t,
          w.state.targetOf e = { target with direction := .outbound })
  idempotent : ∀ (target : Target) (scope : ResetScope),
    Ensures (Table.resetToggles t target scope) w fun r₁ w₁ =>
      Ensures (Table.resetToggles t target scope) w₁ fun r₂ w₂ =>
        r₂ = r₁ ∧ w₂.state = w₁.state
  /-- Resets commute, also those of different tables, and tell the same numbers. -/
  commute : ∀ (target : Target) (scope : ResetScope) (t' : Key Table) (target' : Target)
    (scope' : ResetScope),
    Ensures (Table.resetToggles t target scope) w fun r₁ w₁ =>
      Ensures (Table.resetToggles t' target' scope') w₁ fun r₂ w₂ =>
        Ensures (Table.resetToggles t' target' scope') w fun r₁' w₁' =>
          Ensures (Table.resetToggles t target scope) w₁' fun r₂' w₂' =>
            r₁' = r₂ ∧ r₂' = r₁ ∧ w₂'.state = w₂.state
  within : ∀ target : Target,
    (w.state.selected t target .endpoint).Sublist (w.state.selected t target .device)
  /-- A device may as well be reset at the targets of its endpoints, in any order; one is reset each
  time. -/
  one_by_one : ∀ (target : Target) (order : List (Key Endpoint)),
    order.Perm (w.state.onDevice t target.address) →
      Ensures (Table.resetToggles t target .device) w fun r w₁ =>
        Ensures (order.mapM fun e => Table.resetToggles t (w.state.targetOf e) .endpoint) w
          fun r' w₂ => ∃ counts, r' = .ok counts ∧ (∀ count ∈ counts, count = 1) ∧
            r = .ok counts.length ∧ w₂.state = w₁.state

variable {w : World} {t : Key Table}

theorem length_selected (target : Target) :
    (w.state.selected t target .endpoint).length =
      (Table.matching w.state.targetOf (w.state.tables.get t) target).length := by
  rw [State.selected, Table.reached_eq_matching, List.length_map]

/-- A target with a direction selects one at most, and so does the target of one that is
installed. -/
theorem length_selected_le_one (hexclusive : (w.state.tables.get t).Exclusive w.state.targetOf)
    {target : Target}
    (hcase : target.direction ≠ .both ∨ ∃ e ∈ w.state.installed t, w.state.targetOf e = target) :
    (w.state.selected t target .endpoint).length ≤ 1 := by
  rw [length_selected]
  rcases hcase with hdirection | ⟨e, he, htarget⟩
  · exact hexclusive.length_matching_le_one_of_direction hdirection
  · obtain ⟨slot, hslot⟩ := Slots.mem_values.mp he
    exact hexclusive.length_matching_le_one_of_installed hslot htarget

/-- Only a bidirectional target selects two. -/
theorem length_selected_le_two (hexclusive : (w.state.tables.get t).Exclusive w.state.targetOf)
    (target : Target) :
    (w.state.selected t target .endpoint).length ≤ 2 ∧
      ((w.state.selected t target .endpoint).length = 2 ↔ target.direction = .both ∧
        (∃ e ∈ w.state.installed t,
          w.state.targetOf e = { target with direction := .inbound }) ∧
        ∃ e ∈ w.state.installed t,
          w.state.targetOf e = { target with direction := .outbound }) := by
  rw [length_selected]
  by_cases hboth : target.direction = .both
  · obtain ⟨hle, htwo⟩ := hexclusive.length_matching_of_both hboth
    exact ⟨hle, htwo.trans (and_iff_right hboth).symm⟩
  · have hone := hexclusive.length_matching_le_one_of_direction hboth
    constructor
    · omega
    · constructor
      · intro htwo
        omega
      · rintro ⟨hdirection, -⟩
        exact absurd hdirection hboth

/-- What a reset selects does not depend on the one before it. -/
theorem ensures_resetToggles_twice {t' : Key Table}
    (hfree : (w.state.tables.get t).lock = .free) (hfree' : (w.state.tables.get t').lock = .free)
    (target : Target) (scope : ResetScope) (target' : Target) (scope' : ResetScope) :
    Ensures (Table.resetToggles t target scope) w fun r₁ w₁ =>
      r₁ = .ok (w.state.selected t target scope).length ∧
      w₁.state = w.state.rewound (w.state.selected t target scope) ∧
      Ensures (Table.resetToggles t' target' scope') w₁ fun r₂ w₂ =>
        r₂ = .ok (w.state.selected t' target' scope').length ∧
        w₂.state = (w.state.rewound (w.state.selected t target scope)).rewound
          (w.state.selected t' target' scope') := by
  apply Ensures.mono (Table.ensures_resetToggles_rewound hfree target scope)
  rintro r₁ w₁ ⟨rfl, hfirst⟩
  have hfree₁ : (w₁.state.tables.get t').lock = .free := by
    rw [hfirst]
    exact hfree'
  refine ⟨rfl, hfirst, ?_⟩
  apply Ensures.mono (Table.ensures_resetToggles_rewound hfree₁ target' scope')
  rintro r₂ w₂ ⟨rfl, hsecond⟩
  rw [hfirst, State.selected_rewound] at hsecond
  rw [hfirst, State.selected_rewound]
  exact ⟨rfl, hsecond⟩

theorem resets_idempotent (hfree : (w.state.tables.get t).lock = .free) (target : Target)
    (scope : ResetScope) :
    Ensures (Table.resetToggles t target scope) w fun r₁ w₁ =>
      Ensures (Table.resetToggles t target scope) w₁ fun r₂ w₂ =>
        r₂ = r₁ ∧ w₂.state = w₁.state := by
  apply Ensures.mono (ensures_resetToggles_twice hfree hfree target scope target scope)
  rintro r₁ w₁ ⟨rfl, hfirst, hsecond⟩
  apply Ensures.mono hsecond
  rintro r₂ w₂ ⟨rfl, hagain⟩
  refine ⟨rfl, ?_⟩
  rw [hagain, State.rewound_rewound_self, hfirst]

theorem resets_commute {t' : Key Table} (hfree : (w.state.tables.get t).lock = .free)
    (hfree' : (w.state.tables.get t').lock = .free) (target : Target) (scope : ResetScope)
    (target' : Target) (scope' : ResetScope) :
    Ensures (Table.resetToggles t target scope) w fun r₁ w₁ =>
      Ensures (Table.resetToggles t' target' scope') w₁ fun r₂ w₂ =>
        Ensures (Table.resetToggles t' target' scope') w fun r₁' w₁' =>
          Ensures (Table.resetToggles t target scope) w₁' fun r₂' w₂' =>
            r₁' = r₂ ∧ r₂' = r₁ ∧ w₂'.state = w₂.state := by
  apply Ensures.mono (ensures_resetToggles_twice hfree hfree' target scope target' scope')
  rintro r₁ w₁ ⟨rfl, -, hsecond⟩
  apply Ensures.mono hsecond
  rintro r₂ w₂ ⟨rfl, hthere⟩
  apply Ensures.mono (ensures_resetToggles_twice hfree' hfree target' scope' target scope)
  rintro r₁' w₁' ⟨rfl, -, hsecond'⟩
  apply Ensures.mono hsecond'
  rintro r₂' w₂' ⟨rfl, hback⟩
  refine ⟨rfl, rfl, ?_⟩
  rw [hback, hthere, State.rewound_comm]

/-- Whatever is done to toggles before, the same endpoints are reset. -/
theorem ensures_resetToggles_whatever (hfree : (w.state.tables.get t).lock = .free)
    (toggles : List (Key Endpoint × Bool)) (target : Target) (scope : ResetScope) :
    Ensures (toggles.forM fun (e, value) => Endpoint.setToggle e value) w fun _ w₁ =>
      Ensures (Table.resetToggles t target scope) w₁ fun r w₂ =>
        r = .ok (w.state.selected t target scope).length ∧
        ∀ e, w₂.state.toggleOf e =
          if e ∈ w.state.selected t target scope then false else w₁.state.toggleOf e := by
  apply Ensures.mono (Table.ensures_setToggles toggles)
  rintro r w₁ ⟨rfl, htables, hselected⟩
  have hfree₁ : (w₁.state.tables.get t).lock = .free := by
    rw [htables]
    exact hfree
  apply Ensures.mono (Table.ensures_resetToggles_rewound hfree₁ target scope)
  rintro r w₂ ⟨rfl, hstate⟩
  rw [hselected] at hstate ⊢
  rw [hstate]
  exact ⟨rfl, w₁.state.toggleOf_rewound _⟩

/-- The endpoints of a device are reset one by one as well as all at once. -/
theorem ensures_resetEach_device (hfree : (w.state.tables.get t).lock = .free)
    (hexclusive : (w.state.tables.get t).Exclusive w.state.targetOf) (target : Target)
    {order : List (Key Endpoint)} (horder : order.Perm (w.state.onDevice t target.address)) :
    Ensures (Table.resetToggles t target .device) w fun r w₁ =>
      Ensures (order.mapM fun e => Table.resetToggles t (w.state.targetOf e) .endpoint) w
        fun r' w₂ => ∃ counts, r' = .ok counts ∧ (∀ count ∈ counts, count = 1) ∧
          r = .ok counts.length ∧ w₂.state = w₁.state := by
  have halone : ∀ e ∈ order, w.state.selected t (w.state.targetOf e) .endpoint = [e] :=
    fun e he => hexclusive.reached_endpoint (List.mem_of_mem_filter (horder.subset he))
  apply Ensures.mono (Table.ensures_resetToggles_rewound hfree target .device)
  rintro r w₁ ⟨rfl, hdevice⟩
  apply Ensures.mono (Table.ensures_resetEach_rewound hfree halone)
  rintro r' w₂ ⟨rfl, heach⟩
  refine ⟨_, rfl, by simp, ?_, ?_⟩
  · have hlength : order.length = (w.state.selected t target .device).length :=
      horder.length_eq
    simp [hlength]
  · rw [heach, hdevice]
    exact State.rewound_congr fun e => horder.mem_iff

/-- What a reset selects for one target it selects for the device. -/
theorem selected_sublist_device (target : Target) :
    (w.state.selected t target .endpoint).Sublist (w.state.selected t target .device) := by
  apply List.monotone_filter_right
  intro e he
  have hreaches : ResetScope.endpoint.Reaches target (w.state.targetOf e) := of_decide_eq_true he
  exact decide_eq_true hreaches.address_eq

end World

namespace Session

variable {w : World}

/-- Wherever user code has a table reset toggles, exactly those of the installed endpoints that its
scope selects become DATA0 and nothing else changes, and they are counted, whatever their toggles
were.  Resets are idempotent and commute, and a device is reset as well by resetting its endpoints
one by one, in any order. -/
theorem Reachable.resets_exactly (h : Reachable w) (t : Key Table) : w.ResetsExactly t := by
  have hexclusive := h.changes.tabled.exclusive t
  have hfree : ∀ t', (w.state.tables.get t').lock = .free := h.ready.sound.tablesFree
  constructor
  case selects_nothing =>
    intro target
    apply List.eq_nil_iff_forall_not_mem.mpr
    intro e he
    exact (State.mem_selected.mp he).2
  case selects_matching => exact fun target => rfl
  case selects_device => exact fun target => rfl
  case exactly =>
    intro target scope
    refine ⟨hexclusive.nodup.filter _, ?_⟩
    apply Ensures.mono (Table.ensures_resetToggles_rewound (hfree t) target scope)
    rintro r w' ⟨rfl, hstate⟩
    rw [hstate]
    refine ⟨rfl, w.state.toggleOf_rewound _, fun e => ?_, rfl⟩
    rw [State.get_rewound, State.toggleOf_rewound]
  case whatever => exact World.ensures_resetToggles_whatever (hfree t)
  case at_most_one => exact fun _ => World.length_selected_le_one hexclusive
  case at_most_two => exact World.length_selected_le_two hexclusive
  case idempotent => exact World.resets_idempotent (hfree t)
  case commute =>
    intro target scope t'
    exact World.resets_commute (hfree t) (hfree t') target scope
  case within => exact World.selected_sublist_device
  case one_by_one =>
    exact fun target _ => World.ensures_resetEach_device (hfree t) hexclusive target

/-- The halves of a number have their toggles set, and are reset one by one, the later one first, as
well as by one reset of the bidirectional target that they face. -/
theorem resets_exactly_halves :
    ∃ w, Reachable w ∧ w.state.toggleOf ⟨0⟩ = true ∧ w.state.toggleOf ⟨1⟩ = true ∧
      (w.state.selected ⟨0⟩ ⟨1, 2, .both⟩ .endpoint).length = 2 ∧
      Ensures (Table.resetToggles ⟨0⟩ ⟨1, 2, .both⟩ .endpoint) w fun r w' =>
        r = .ok 2 ∧ w'.state.toggleOf ⟨0⟩ = false ∧ w'.state.toggleOf ⟨1⟩ = false := by
  obtain ⟨w, hw⟩ : ∃ w, w = after 1 [.addBus "hub" (.bare Script), .addTable "table",
      .addEndpoint "hub" ⟨⟨1, 2, .inbound⟩, .bulk, 64⟩ "in", .setToggle "in" true,
      .register "table" "in",
      .addEndpoint "hub" ⟨⟨1, 2, .outbound⟩, .bulk, 64⟩ "out", .setToggle "out" true,
      .register "table" "out"] := ⟨_, rfl⟩
  have hreachable : Reachable w := hw ▸ .idle (idle_after 1 _)
  have htoggles : w.state.toggleOf ⟨0⟩ = true ∧ w.state.toggleOf ⟨1⟩ = true := by
    rw [hw]
    decide
  have hselected : w.state.selected ⟨0⟩ ⟨1, 2, .both⟩ .endpoint = [⟨0⟩, ⟨1⟩] := by
    rw [hw]
    decide
  refine ⟨w, hreachable, htoggles.1, htoggles.2, by rw [hselected]; rfl, ?_⟩
  apply Ensures.mono ((hreachable.resets_exactly ⟨0⟩).exactly ⟨1, 2, .both⟩ .endpoint).2
  rintro r w' ⟨rfl, hreset, -⟩
  simp [hreset, hselected]

end Session
end UsbTransfer
