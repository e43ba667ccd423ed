import UsbTransfer.Proofs.LibrarySteps
import UsbTransfer.Proofs.Toggles

/-!
# Steps of toggles

The history tells how the toggle of an endpoint came to be what it is: an endpoint is created with
DATA0, its toggle is set or advanced, or a table resets it.  The toggle is what these events make of
it, one after the other.  A table resets several endpoints in one event, for which it sets their
toggles one by one.
-/

namespace UsbTransfer

open Run

/-- The event that an occurrence tells of. -/
def Occurrence.toggleEvent? : Occurrence → Option ToggleEvent
  | .endpointCreated e => some (.created e)
  | .toggleSet e value => some (.set e value)
  | .toggleAdvanced e => some (.advanced e)
  | .tableReset t es => some (.reset t es)
  | _ => none

namespace ToggleEvent

/-- What an event makes of the toggle of an endpoint. -/
def apply (e : Key Endpoint) : ToggleEvent → Bool → Bool
  | .created e', toggle => if e = e' then false else toggle
  | .set e' value, toggle => if e = e' then value else toggle
  | .advanced e', toggle => if e = e' then !toggle else toggle
  | .reset _ es, toggle => if e ∈ es then false else toggle

/-- What events make of a toggle; the latest event comes first. -/
def replay (e : Key Endpoint) (events : List ToggleEvent) (toggle : Bool) : Bool :=
  events.foldr (apply e) toggle

@[simp]
theorem replay_nil (e : Key Endpoint) (toggle : Bool) :
    replay e [] toggle = toggle :=
  rfl

@[simp]
theorem replay_cons (e : Key Endpoint) (event : ToggleEvent) (events : List ToggleEvent)
    (toggle : Bool) :
    replay e (event :: events) toggle = event.apply e (replay e events toggle) :=
  rfl

theorem replay_append (e : Key Endpoint) (events earlier : List ToggleEvent) (toggle : Bool) :
    replay e (events ++ earlier) toggle = replay e events (replay e earlier toggle) :=
  List.foldr_append

/-- The events in a history, the latest one first, of which as many are left out as belong to a
reset that came after them. -/
def read : Nat → List Moment → List ToggleEvent
  | _, [] => []
  | skipped, m :: earlier =>
      match m.occurrence.toggleEvent?, skipped with
      | none, _ => read skipped earlier
      | some (.reset t es), _ => .reset t es :: read es.length earlier
      | some event, 0 => event :: read 0 earlier
      | some _, skipped + 1 => read skipped earlier

/-- The events in a history, the latest one first. -/
def all (history : List Moment) : List ToggleEvent :=
  read 0 history

theorem all_cons_of_none {m : Moment} (h : m.occurrence.toggleEvent? = none)
    (earlier : List Moment) :
    all (m :: earlier) = all earlier := by
  simp [all, read, h]

end ToggleEvent

/-! ## Steps -/

/-- All endpoints are there that were, and their toggles are what they were. -/
structure State.SameToggles (s s' : State) : Prop where
  size : s'.endpoints.size = s.endpoints.size
  toggles : ∀ e, s'.toggleOf e = s.toggleOf e

/-- An event of a kind, or something that is no event.  What a table resets is what it holds of the
endpoints that are reached. -/
inductive ToggleStep (P : ToggleEvent → Prop) (w : World) : World → Prop where
  | alter {f : State → State} (hsame : w.state.SameToggles (f w.state)) : ToggleStep P w (w.alter f)
  | note {o : Occurrence} (hnone : o.toggleEvent? = none) : ToggleStep P w (w.note o)
  | create (bus : Key Bus) (descriptor : Descriptor)
      (hkind : P (.created w.state.endpoints.nextKey)) :
      ToggleStep P w
        ((w.alter (·.addEndpoint bus descriptor)).note
          (.endpointCreated w.state.endpoints.nextKey))
  | set {e : Key Endpoint} {value : Bool} (hkind : P (.set e value)) :
      ToggleStep P w (w.setToggle e value)
  | advance {e : Key Endpoint} (hkind : P (.advanced e)) : ToggleStep P w (w.advanceToggle e)
  | reset {t : Key Table} {target : Target} {scope : ResetScope} {reached : List (Key Endpoint)}
      (hreached : (w.state.tables.get t).reached w.state.targetOf target scope = reached)
      (hkind : P (.reset t reached)) :
      ToggleStep P w ((w.resetEach reached).note (.tableReset t reached))

variable {P : ToggleEvent → Prop} {w w' : World} {e x : Key Endpoint} {value : Bool}

theorem ToggleStep.mono {Q : ToggleEvent → Prop} (hPQ : ∀ event, P event → Q event)
    (h : ToggleStep P w w') :
    ToggleStep Q w w' := by
  cases h with
  | alter hsame => exact .alter hsame
  | note hnone => exact .note hnone
  | create bus descriptor hkind => exact .create bus descriptor (hPQ _ hkind)
  | set hkind => exact .set (hPQ _ hkind)
  | advance hkind => exact .advance (hPQ _ hkind)
  | reset hreached hkind => exact .reset hreached (hPQ _ hkind)

namespace World

/-! ## Toggles that are set -/

@[simp]
theorem size_setToggle (w : World) (e : Key Endpoint) (value : Bool) :
    (w.setToggle e value).state.endpoints.size = w.state.endpoints.size :=
  w.state.endpoints.size_modify e _

theorem toggleOf_setToggle (hx : x.index < w.state.endpoints.size) :
    (w.setToggle e value).state.toggleOf x =
      (ToggleEvent.set e value).apply x (w.state.toggleOf x) := by
  simp only [ToggleEvent.apply]
  split
  · next heq =>
      subst heq
      exact congrArg Endpoint.toggle (w.state.endpoints.get_modify_self x _ hx)
  · next hne => exact congrArg Endpoint.toggle (w.state.endpoints.get_modify_of_ne _ hne)

theorem toggleOf_advanceToggle (hx : x.index < w.state.endpoints.size) :
    (w.advanceToggle e).state.toggleOf x =
      (ToggleEvent.advanced e).apply x (w.state.toggleOf x) := by
  simp only [ToggleEvent.apply]
  split
  · next heq =>
      subst heq
      exact congrArg Endpoint.toggle (w.state.endpoints.get_modify_self x _ hx)
  · next hne => exact congrArg Endpoint.toggle (w.state.endpoints.get_modify_of_ne _ hne)

theorem resetEach_cons (w : World) (e : Key Endpoint) (es : List (Key Endpoint)) :
    w.resetEach (e :: es) = (w.setToggle e false).resetEach es :=
  rfl

@[simp]
theorem size_resetEach (w : World) (es : List (Key Endpoint)) :
    (w.resetEach es).state.endpoints.size = w.state.endpoints.size := by
  induction es generalizing w with
  | nil => rfl
  | cons e es ih => rw [resetEach_cons, ih, size_setToggle]

theorem toggleOf_resetEach (es : List (Key Endpoint)) (hx : x.index < w.state.endpoints.size) :
    (w.resetEach es).state.toggleOf x = if x ∈ es then false else w.state.toggleOf x := by
  induction es generalizing w with
  | nil => rfl
  | cons e es ih =>
      rw [resetEach_cons, ih (by simpa using hx), toggleOf_setToggle hx]
      by_cases hmem : x ∈ es <;> by_cases heq : x = e <;> simp [ToggleEvent.apply, hmem, heq]

/-- A reset of toggles changes neither what tables hold nor the targets of endpoints. -/
theorem reached_resetEach (w : World) (es : List (Key Endpoint)) (t : Key Table) (target : Target)
    (scope : ResetScope) :
    ((w.resetEach es).state.tables.get t).reached (w.resetEach es).state.targetOf target scope =
      (w.state.tables.get t).reached w.state.targetOf target scope := by
  induction es generalizing w with
  | nil => rfl
  | cons e es ih =>
      have htargets : (w.setToggle e false).state.targetOf = w.state.targetOf := by
        funext x
        exact w.state.endpoints.apply_get_modify e x (fun x => { x with toggle := false })
          Endpoint.target fun _ => rfl
      rw [resetEach_cons, ih, htargets]
      rfl

/-- A table that resets toggles records each of them. -/
theorem occurrences_resetEach (w : World) (es : List (Key Endpoint)) :
    ∃ since, (w.resetEach es).history = since ++ w.history ∧
      since.map (·.occurrence) = es.reverse.map (.toggleSet · false) := by
  induction es generalizing w with
  | nil => exact ⟨[], rfl, rfl⟩
  | cons e es ih =>
      obtain ⟨since, hhistory, hsince⟩ := ih (w.setToggle e false)
      exact ⟨since ++ [⟨.toggleSet e false, (w.setToggle e false).state⟩],
        by rw [resetEach_cons, hhistory, List.append_assoc]; rfl, by simp [hsince]⟩

end World

namespace ToggleEvent

/-- What was recorded for a reset is no event of its own. -/
theorem read_append_of_sets {since : List Moment} {es : List (Key Endpoint)}
    (hsince : since.map (·.occurrence) = es.map (.toggleSet · false)) (earlier : List Moment) :
    read es.length (since ++ earlier) = read 0 earlier := by
  induction es generalizing since with
  | nil =>
      rw [List.map_nil, List.map_eq_nil_iff] at hsince
      rw [hsince]
      rfl
  | cons e es ih =>
      obtain ⟨m, rest, rfl, hm, hrest⟩ := List.map_eq_cons_iff.mp hsince
      have hevent : m.occurrence.toggleEvent? = some (.set e false) := by
        rw [hm]
        rfl
      simpa only [List.cons_append, List.length_cons, read, hevent] using ih hrest

theorem all_reset (w : World) (t : Key Table) (es : List (Key Endpoint)) :
    all ((w.resetEach es).note (.tableReset t es)).history = .reset t es :: all w.history := by
  obtain ⟨since, hhistory, hsince⟩ := w.occurrences_resetEach es
  have hskipped := read_append_of_sets hsince w.history
  rw [List.length_reverse, ← hhistory] at hskipped
  exact congrArg _ hskipped

end ToggleEvent

/-! ## What events make of toggles -/

/-- Events of a kind came to pass, and they tell what the toggles are now. -/
structure World.Toggled (P : ToggleEvent → Prop) (w w' : World)
    (made : List ToggleEvent) : Prop where
  told : ToggleEvent.all w'.history = made ++ ToggleEvent.all w.history
  kind : ∀ event ∈ made, P event
  grows : w.state.endpoints.size ≤ w'.state.endpoints.size
  /-- It does not matter what is thought to be the toggle of an endpoint that does not exist. -/
  toggles : ∀ x, x.index < w'.state.endpoints.size →
    ∀ toggle, (x.index < w.state.endpoints.size → w.state.toggleOf x = toggle) →
      w'.state.toggleOf x = ToggleEvent.replay x made toggle

namespace World.Toggled

variable {w'' : World} {made made' : List ToggleEvent}

theorem refl (w : World) : w.Toggled P w [] where
  told := rfl
  kind := by simp
  grows := Nat.le_refl _
  toggles := fun x hx toggle htoggle => htoggle hx

theorem trans (h : w.Toggled P w' made) (h' : w'.Toggled P w'' made') :
    w.Toggled P w'' (made' ++ made) where
  told := by rw [h'.told, h.told, List.append_assoc]
  kind := fun event hevent => (List.mem_append.mp hevent).elim (h'.kind event) (h.kind event)
  grows := Nat.le_trans h.grows h'.grows
  toggles := by
    intro x hx toggle htoggle
    rw [ToggleEvent.replay_append]
    exact h'.toggles x hx _ fun hx' => h.toggles x hx' toggle htoggle

theorem toggle_eq (h : w.Toggled P w' made) (hx : x.index < w.state.endpoints.size) :
    w'.state.toggleOf x = ToggleEvent.replay x made (w.state.toggleOf x) :=
  h.toggles x (Nat.lt_of_lt_of_le hx h.grows) _ fun _ => rfl

end World.Toggled

theorem World.toggled_alter {f : State → State} (hsame : w.state.SameToggles (f w.state)) :
    w.Toggled P (w.alter f) [] :=
  ⟨rfl, by simp, Nat.le_of_eq hsame.size.symm, fun x hx toggle htoggle =>
    (hsame.toggles x).trans (htoggle (hsame.size ▸ hx))⟩

theorem World.toggled_note {o : Occurrence} (hnone : o.toggleEvent? = none) :
    w.Toggled P (w.note o) [] :=
  ⟨ToggleEvent.all_cons_of_none hnone _, by simp, Nat.le_refl _, fun _ hx _ htoggle => htoggle hx⟩

theorem World.toggled_setToggle (hkind : P (.set e value)) :
    w.Toggled P (w.setToggle e value) [.set e value] := by
  have hsize := Nat.le_of_eq (w.size_setToggle e value).symm
  refine ⟨rfl, by simpa, hsize, fun x hx toggle htoggle => ?_⟩
  rw [World.size_setToggle] at hx
  rw [World.toggleOf_setToggle hx, htoggle hx]
  rfl

theorem World.toggled_advanceToggle (hkind : P (.advanced e)) :
    w.Toggled P (w.advanceToggle e) [.advanced e] := by
  have hsize : (w.advanceToggle e).state.endpoints.size = w.state.endpoints.size :=
    w.state.endpoints.size_modify e _
  refine ⟨rfl, by simpa, Nat.le_of_eq hsize.symm, fun x hx toggle htoggle => ?_⟩
  rw [hsize] at hx
  rw [World.toggleOf_advanceToggle hx, htoggle hx]
  rfl

theorem World.toggled_reset {t : Key Table} {es : List (Key Endpoint)} (hkind : P (.reset t es)) :
    w.Toggled P ((w.resetEach es).note (.tableReset t es)) [.reset t es] := by
  refine ⟨ToggleEvent.all_reset w t es, by simpa, Nat.le_of_eq (w.size_resetEach es).symm,
    fun x hx toggle htoggle => ?_⟩
  rw [World.note_state, World.size_resetEach] at hx
  rw [World.note_state, World.toggleOf_resetEach es hx, htoggle hx]
  rfl

theorem ToggleStep.toggled (h : ToggleStep P w w') :
    ∃ made, w.Toggled P w' made := by
  cases h with
  | alter hsame => exact ⟨[], World.toggled_alter hsame⟩
  | note hnone => exact ⟨[], World.toggled_note hnone⟩
  | create bus descriptor hkind =>
      refine ⟨[.created w.state.endpoints.nextKey], rfl, by simpa, ?_,
        fun x hx toggle htoggle => ?_⟩
      · simp [State.addEndpoint]
      · simp only [ToggleEvent.replay_cons, ToggleEvent.replay_nil, ToggleEvent.apply,
          State.toggleOf, World.note_state, World.alter_state, State.addEndpoint, Arena.get_push]
        split
        · rfl
        · next hne =>
            refine htoggle (Nat.lt_of_le_of_ne (Nat.le_of_lt_succ ?_) fun h => hne (Key.ext h))
            simpa [State.addEndpoint] using hx
  | set hkind => exact ⟨_, World.toggled_setToggle hkind⟩
  | advance hkind => exact ⟨_, World.toggled_advanceToggle hkind⟩
  | reset hreached hkind => exact ⟨_, World.toggled_reset hkind⟩

/-- The events of a run are those of its steps. -/
theorem toggled_of_steps (h : Relation.ReflTransGen (ToggleStep P) w w') :
    ∃ made, w.Toggled P w' made := by
  induction h with
  | refl => exact ⟨[], .refl w⟩
  | tail _ hstep ih =>
      obtain ⟨made, hmade⟩ := ih
      obtain ⟨made', hmade'⟩ := hstep.toggled
      exact ⟨made' ++ made, hmade.trans hmade'⟩

/-! ## Moments -/

namespace World

/-- The toggles are what the events on record make of DATA0. -/
def Replayed (w : World) : Prop :=
  ∀ e, e.index < w.state.endpoints.size →
    w.state.toggleOf e = ToggleEvent.replay e (ToggleEvent.all w.history) false

/-- The toggles were so at every moment. -/
structure ReplayedThroughout (w : World) : Prop where
  now : w.Replayed
  moments : ∀ {m earlier}, m :: earlier <:+ w.history → Replayed ⟨m.state, m :: earlier⟩

/-- What a table reset is what it held of the endpoints that were reached, and right before, their
toggles were set one after the other. -/
def ResetsHeld (w : World) : Prop :=
  ∀ t es s earlier, ⟨.tableReset t es, s⟩ :: earlier <:+ w.history →
    (∃ target scope, (s.tables.get t).reached s.targetOf target scope = es) ∧
      es.reverse.map (.toggleSet · false) <+: earlier.map (·.occurrence)

theorem Toggled.replayed {made : List ToggleEvent} (h : w.Toggled P w' made) (hw : w.Replayed) :
    w'.Replayed := by
  intro e he
  rw [h.told, ToggleEvent.replay_append]
  exact h.toggles e he _ fun he' => hw e he'

theorem ReplayedThroughout.of_noted {o : Occurrence} (h : w.ReplayedThroughout)
    (hhistory : w'.history = ⟨o, w'.state⟩ :: w.history) (hnow : w'.Replayed) :
    w'.ReplayedThroughout where
  now := hnow
  moments := by
    intro m earlier hm
    rw [hhistory] at hm
    rcases List.suffix_cons_iff.mp hm with hlast | hbefore
    · obtain ⟨rfl, rfl⟩ := List.cons.inj hlast
      rwa [← hhistory]
    · exact h.moments hbefore

theorem ReplayedThroughout.setToggle (h : w.ReplayedThroughout) (e : Key Endpoint)
    (value : Bool) :
    (w.setToggle e value).ReplayedThroughout := by
  obtain ⟨made, hmade⟩ := ToggleStep.toggled (P := fun _ => True) (w := w) (.set (e := e) trivial)
  exact h.of_noted rfl (hmade.replayed h.now)

theorem ReplayedThroughout.resetEach (h : w.ReplayedThroughout) (es : List (Key Endpoint)) :
    (w.resetEach es).ReplayedThroughout := by
  induction es generalizing w with
  | nil => exact h
  | cons e es ih => exact ih (h.setToggle e false)

theorem ResetsHeld.of_noted {m : Moment} (h : w.ResetsHeld) (hhistory : w'.history = m :: w.history)
    (hreset : ∀ t es, m.occurrence ≠ .tableReset t es) :
    w'.ResetsHeld := by
  intro t es s earlier hm
  rw [hhistory] at hm
  rcases List.suffix_cons_iff.mp hm with hlast | hbefore
  · obtain ⟨rfl, rfl⟩ := List.cons.inj hlast
    exact absurd rfl (hreset t es)
  · exact h t es s earlier hbefore

theorem ResetsHeld.resetEach (h : w.ResetsHeld) (es : List (Key Endpoint)) :
    (w.resetEach es).ResetsHeld := by
  induction es generalizing w with
  | nil => exact h
  | cons e es ih =>
      have hset : (w.setToggle e false).ResetsHeld := h.of_noted rfl nofun
      exact ih hset

end World

theorem ToggleStep.replayedThroughout (h : ToggleStep P w w') (hw : w.ReplayedThroughout) :
    w'.ReplayedThroughout := by
  obtain ⟨made, hmade⟩ := h.toggled
  have hnow := hmade.replayed hw.now
  cases h with
  | alter hsame => exact ⟨hnow, hw.moments⟩
  | note | create | set | advance => exact hw.of_noted rfl hnow
  | reset => exact (hw.resetEach _).of_noted rfl hnow

theorem ToggleStep.resetsHeld (h : ToggleStep P w w') (hw : w.ResetsHeld) : w'.ResetsHeld := by
  cases h with
  | alter hsame => exact hw
  | note hnone =>
      refine hw.of_noted rfl fun t es ho => ?_
      cases ho
      cases hnone
  | create | set | advance => exact hw.of_noted rfl fun t es ho => by cases ho
  | @reset t target scope reached hreached hkind =>
      intro t' es s earlier hm
      rcases List.suffix_cons_iff.mp hm with hlast | hbefore
      · obtain ⟨hmoment, rfl⟩ := List.cons.inj hlast
        obtain ⟨hoccurrence, rfl⟩ := Moment.mk.inj hmoment
        obtain ⟨rfl, rfl⟩ := Occurrence.tableReset.inj hoccurrence
        obtain ⟨since, hhistory, hsince⟩ := w.occurrences_resetEach es
        refine ⟨⟨target, scope, (w.reached_resetEach es t' target scope).trans hreached⟩, ?_⟩
        rw [hhistory, List.map_append, hsince]
        exact List.prefix_append _ _
      · exact hw.resetEach reached t' es s earlier hbefore

theorem ToggleStep.suffix (h : ToggleStep P w w') : w.history <:+ w'.history := by
  cases h with
  | alter => exact List.suffix_refl _
  | note | create | set | advance => exact List.suffix_cons _ _
  | @reset t target scope reached hreached hkind =>
      obtain ⟨since, hhistory, -⟩ := w.occurrences_resetEach reached
      exact (hhistory ▸ List.suffix_append since w.history).trans (List.suffix_cons _ _)

theorem suffix_of_toggleSteps (h : Relation.ReflTransGen (ToggleStep P) w w') :
    w.history <:+ w'.history := by
  induction h with
  | refl => exact List.suffix_refl _
  | tail _ hstep ih => exact ih.trans hstep.suffix

end UsbTransfer
