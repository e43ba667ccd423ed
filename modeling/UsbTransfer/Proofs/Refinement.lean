import UsbTransfer.Proofs.Holdings

/-!
# Tables are sets of endpoints

Wherever user code looks at a table, its slots stand for the set of the endpoints that were
registered and not given back.  What an operation answers and leaves behind is told by that set.  So
two sessions that lead to the same set by different ways cannot be told apart by any operation,
unless by a look-up for an ambiguous target.
-/

namespace UsbTransfer

open Run

namespace Session

instance (s : State) (t : Key Table) (target : Target) : Decidable (Taken s t target) :=
  inferInstanceAs (Decidable (∃ e ∈ s.installed t, (s.targetOf e).Matches target))

/-- The names stand for the table and for a reference on the endpoint that can be given away. -/
structure Offers (s : State) (t : Key Table) (table name : String) (e : Key Endpoint) : Prop where
  table : s.directory.tables.find? table = some t
  handle : ∃ handle, s.directory.handles.find? name = some handle ∧ handle.endpoint = e ∧
    handle ∉ s.directory.loans

/-- An endpoint was refused, and a fault came from the bus that was told of it, if there is one. -/
def Refused (r : Except Fault Result) : Prop :=
  r = .ok (.error (.failed .alreadyRegistered)) ∨ ∃ fault, r = .error fault ∧ fault.Raised

/-- A reference on the endpoint is given back and all tables hold what they held.  Nothing else
happens, unless that was the last reference: then its bus finds the world so. -/
def GivesBack (t : Key Table) (e : Key Endpoint) (w : World) (r : Except Fault Result)
    (w' : World) : Prop :=
  ∃ w₁ : World,
    w.state.Leaves t (w.state.installed t)
      (fun x => w.state.referencesOn x - if x = e then 1 else 0) w₁.state ∧
    (1 < w.state.referencesOn e ∧ r = .ok (.error (.failed .alreadyRegistered)) ∧ w' = w₁ ∨
      w.state.referencesOn e = 1 ∧ ∃ m earlier, w₁ = ⟨m.state, m :: earlier⟩ ∧
        m.occurrence = .endpointFarewell (w.state.busOf e) e ∧ m :: earlier <:+ w'.history)

theorem GivesBack.leaves {t : Key Table} {e : Key Endpoint} {w w' : World}
    {r : Except Fault Result} (h : GivesBack t e w r w') (hshared : 1 < w.state.referencesOn e) :
    w.state.Leaves t (w.state.installed t)
      (fun x => w.state.referencesOn x - if x = e then 1 else 0) w'.state := by
  obtain ⟨w₁, hleaves, ⟨-, -, rfl⟩ | ⟨hlast, -⟩⟩ := h
  · exact hleaves
  · omega

end Session

/-- A table stands for the set of the endpoints that were registered and not given back.  All its
slots are occupied or vacant, and it has the occupied ones and the vacant ones apart. -/
structure World.Represents (w : World) (t : Key Table) : Prop where
  recorded : (w.state.installed t).Perm (Table.listed t w.history)
  nodup : (w.state.installed t).Nodup
  partition : ((w.state.tables.get t).slots.vacated ++
      (w.state.tables.get t).slots.entries.map (·.1)).Perm
        (List.range (w.state.tables.get t).slots.cells.length)

/-- What the operations on a table answer and leave behind, told by the set of endpoints in it. -/
structure World.ActsAsSet (w : World) (t : Key Table) : Prop where
  registers : ∀ limit table name e, Session.Offers w.state t table name e →
    Ensures (Session.register (Session.player limit) table name) w fun r w' =>
      if Session.Taken w.state t (w.state.targetOf e) then
        Session.Refused r ∧ Session.GivesBack t e w r w'
      else
        r = .ok (.ok .done) ∧
          w.state.Leaves t (e :: w.state.installed t) w.state.referencesOn w'.state
  finds : ∀ target, Ensures (Table.find? t target) w fun r w' =>
    ∃ e?, r = .ok e? ∧ w.state.Picks t target e? ∧
      w.state.Leaves t (w.state.installed t)
        (fun x => w.state.referencesOn x + if e? = some x then 1 else 0) w'.state
  removes : ∀ target, Ensures (Table.remove t target) w fun r w' =>
    ∃ e?, r = .ok (e?.elim (.error .notRegistered) .ok) ∧ w.state.Picks t target e? ∧
      w.state.Leaves t ((w.state.installed t).filter fun x => e? ≠ some x)
        w.state.referencesOn w'.state
  removesDevice : ∀ address, Ensures (Table.removeDevice t address) w fun r w' =>
    ∃ es, r = .ok es ∧
      es.Perm ((w.state.installed t).filter fun e => (w.state.targetOf e).address = address) ∧
      w.state.Leaves t
        ((w.state.installed t).filter fun e => (w.state.targetOf e).address ≠ address)
        w.state.referencesOn w'.state
  resets : ∀ target scope, Ensures (Table.resetToggles t target scope) w fun r w' =>
    r = .ok ((w.state.installed t).countP fun e => scope.Reaches target (w.state.targetOf e)) ∧
    w.state.Leaves t (w.state.installed t) w.state.referencesOn w'.state ∧
    ∀ e, w'.state.toggleOf e =
      if e ∈ w.state.installed t ∧ scope.Reaches target (w.state.targetOf e) then false
      else w.state.toggleOf e
  counts : Ensures (Table.size t) w fun r w' => r = .ok (w.state.installed t).length ∧ w' = w

/-- Two tables hold the same set, when the endpoints of one session stand for those of another. -/
structure State.SameSet (f : Key Endpoint → Key Endpoint) (s : State) (t : Key Table)
    (s₂ : State) (t₂ : Key Table) : Prop where
  installed : (s₂.installed t₂).Perm ((s.installed t).map f)
  targets : ∀ e ∈ s.installed t, s₂.targetOf (f e) = s.targetOf e

/-- No operation tells two tables apart, unless it looks for an ambiguous target, and afterwards
they hold the same set again. -/
structure World.AnswersAlike (f : Key Endpoint → Key Endpoint) (w : World) (t : Key Table)
    (w₂ : World) (t₂ : Key Table) : Prop where
  registers : ∀ limit table name limit₂ table₂ name₂ e,
    Session.Offers w.state t table name e → Session.Offers w₂.state t₂ table₂ name₂ (f e) →
    w₂.state.targetOf (f e) = w.state.targetOf e →
      Ensures (Session.register (Session.player limit) table name) w fun r w' =>
        Ensures (Session.register (Session.player limit₂) table₂ name₂) w₂ fun r₂ w₂' =>
          Session.Refused r ∧ Session.Refused r₂ ∧
              (1 < w.state.referencesOn e → 1 < w₂.state.referencesOn (f e) →
                w'.state.SameSet f t w₂'.state t₂) ∨
            r = .ok (.ok .done) ∧ r₂ = .ok (.ok .done) ∧ w'.state.SameSet f t w₂'.state t₂
  finds : ∀ target, ¬ w.state.Ambiguous t target →
    Ensures (Table.find? t target) w fun r w' => Ensures (Table.find? t₂ target) w₂ fun r₂ w₂' =>
      ∃ e?, r = .ok e? ∧ r₂ = .ok (e?.map f) ∧ w'.state.SameSet f t w₂'.state t₂
  removes : ∀ target, ¬ w.state.Ambiguous t target →
    Ensures (Table.remove t target) w fun r w' => Ensures (Table.remove t₂ target) w₂ fun r₂ w₂' =>
      ∃ e? : Except UsbError (Key Endpoint), r = .ok e? ∧ r₂ = .ok (e?.map f) ∧
        w'.state.SameSet f t w₂'.state t₂
  removesDevice : ∀ address,
    Ensures (Table.removeDevice t address) w fun r w' =>
      Ensures (Table.removeDevice t₂ address) w₂ fun r₂ w₂' =>
        ∃ es es₂, r = .ok es ∧ r₂ = .ok es₂ ∧ es₂.Perm (es.map f) ∧
          w'.state.SameSet f t w₂'.state t₂
  resets : ∀ target scope,
    Ensures (Table.resetToggles t target scope) w fun r w' =>
      Ensures (Table.resetToggles t₂ target scope) w₂ fun r₂ w₂' =>
        (∃ n, r = .ok n ∧ r₂ = .ok n) ∧ w'.state.SameSet f t w₂'.state t₂ ∧
          ∀ e ∈ w.state.installed t,
            w'.state.toggleOf e = false ∧ w₂'.state.toggleOf (f e) = false ∨
              w'.state.toggleOf e = w.state.toggleOf e ∧
                w₂'.state.toggleOf (f e) = w₂.state.toggleOf (f e)
  counts : Ensures (Table.size t) w fun r _ => Ensures (Table.size t₂) w₂ fun r₂ _ => r = r₂

/-! ## One table -/

variable {hands : Hands} {w w₂ : World} {t t₂ : Key Table} {e : Key Endpoint} {target : Target}

/-- The world after a loss is what is left, or what the bus of the endpoint finds. -/
theorem World.Loses.leaves {w₁ : World} (h : w.Loses e w₁) (t : Key Table) :
    w.state.Leaves t (w.state.installed t)
      (fun x => w.state.referencesOn x - if x = e then 1 else 0) w₁.state := by
  have hlose : 0 < w.state.referencesOn e → w.state.Leaves t (w.state.installed t)
      (fun x => w.state.referencesOn x - if x = e then 1 else 0) (w.state.loseReference e) := by
    intro hpos
    have hmodify : w.state.Leaves t (w.state.installed t) _ (w.state.loseReference e) :=
      State.leaves_modify t (State.index_lt_of_references_pos hpos) rfl rfl fun _ => rfl
    refine hmodify.congr (List.Perm.refl _) fun x => ?_
    by_cases hx : x = e
    · subst hx
      simp [State.referencesOn]
    · simp [hx]
  cases h with
  | shared hreferences => exact hlose (Nat.lt_of_succ_lt hreferences)
  | @last plan hreferences hplan =>
      have hstands : (w.state.loseReference e).Stands
          ((w.state.loseReference e).setPlan (w.state.busOf e) plan) :=
        ⟨fun _ => rfl, fun _ => rfl, fun _ => rfl⟩
      exact (hlose (Nat.lt_of_lt_of_eq Nat.one_pos hreferences.symm)).stands hstands

namespace Session

/-- An endpoint is refused when something matches it and installed when nothing does. -/
theorem leaves_register {play : Player} (hplay : play.Fair) (hw : w.Ready hands)
    {table name : String} (hoffers : Offers w.state t table name e) :
    Ensures (register play table name) w fun r w' =>
      if Taken w.state t (w.state.targetOf e) then Refused r ∧ GivesBack t e w r w'
      else r = .ok (.ok .done) ∧
        w.state.Leaves t (e :: w.state.installed t) w.state.referencesOn w'.state := by
  obtain ⟨ht, handle, hhandle, rfl, hloan⟩ := hoffers
  have htake : Moves hands [] [.reference handle.endpoint] w (w.alter (·.takeHandle name)) :=
    .takeHandle hw.sound hhandle hloan
  have hstands : w.state.Stands (w.state.takeHandle name) :=
    ⟨fun _ => rfl, fun _ => rfl, fun _ => rfl⟩
  have hready := htake.ready hw
  unfold register withTable takeHandle
  simp only [ensures_bind, ensures_getState, then_ok, ht, hhandle, Directory.OnLoan, hloan,
    if_false, ensures_modifyState, ensures_pure]
  split
  · next htaken =>
      obtain ⟨entry, hlookup⟩ := Option.ne_none_iff_exists'.mp
        fun hnone => lookup?_eq_none_iff.mp hnone htaken
      obtain ⟨noted, hnoted⟩ : ∃ noted, noted = (w.alter (·.takeHandle name)).noteUnder (.table t)
        (.registrationRefused t handle.endpoint) := ⟨_, rfl⟩
      have hrefused : Moves hands [] [] (w.alter (·.takeHandle name)) noted :=
        hnoted ▸ .noteAside _ ⟨entry, hlookup⟩ rfl fun h => h.elim
      have hnotedStands : w.state.Stands noted.state := hnoted ▸ hstands
      refine Table.ensures_register_of_matching (hready.sound.tablesFree t) hlookup ?_
      rw [← hnoted]
      apply Ensures.mono (Endpoint.ensures_release hplay (hrefused.ready hready)
        (hnoted ▸ htake.spare_pos))
      rintro r w' ⟨w₁, hloses, haccount, hshared⟩
      have hleaves : w.state.Leaves t (w.state.installed t)
          (fun x => w.state.referencesOn x - if x = handle.endpoint then 1 else 0) w₁.state := by
        subst hnoted
        exact hstands.before (hloses.leaves t)
      have hback : ∀ r' : Except Fault Result,
          (r = .ok () → r' = .ok (.error (.failed .alreadyRegistered))) →
            GivesBack t handle.endpoint w r' w' := by
        intro r' hr'
        refine ⟨w₁, hleaves, ?_⟩
        subst hnoted
        cases hloses with
        | shared hreferences =>
            obtain ⟨rfl, rfl⟩ := hshared hreferences
            exact .inl ⟨hreferences, hr' rfl, rfl⟩
        | last hreferences hplan =>
            exact .inr ⟨hreferences, _, _, rfl, rfl, haccount.moves.suffix⟩
      cases r with
      | ok _ => exact ⟨.inl rfl, hback _ fun _ => rfl⟩
      | error fault => exact ⟨.inr ⟨fault, rfl, haccount.2⟩, hback _ fun h => by cases h⟩
  · next hvacant =>
      refine Table.ensures_register_of_vacant (hready.sound.tablesFree t)
        (lookup?_eq_none_iff.mpr hvacant) ⟨rfl, ?_⟩
      have hsize := hw.sound.tablesExist t (Names.mem_values_of_find? ht)
      have hslots := congrArg Table.slots (Arena.get_modify_self w.state.tables t
        (fun table => { table with slots := table.slots.insert handle.endpoint }) hsize)
      refine ⟨?_, fun t' hne => congrArg Table.slots (Arena.get_modify_of_ne _ _ hne),
        fun _ => rfl, fun _ => rfl⟩
      exact (List.Perm.of_eq (congrArg Slots.values hslots)).trans
        ((hw.sound.slotsProper t).values_insert_perm _)

theorem Reachable.represents (h : Reachable w) (t : Key Table) : w.Represents t where
  recorded := (h.lifecycleSteps.listed h.changes.registers).perm t
  nodup := (h.changes.tabled.exclusive t).nodup
  partition := (h.ready.sound.slotsProper t).partition

theorem Reachable.actsAsSet (h : Reachable w) (t : Key Table) : w.ActsAsSet t where
  registers := fun limit _ _ _ hoffers => leaves_register (player_fair limit) h.ready hoffers
  finds := Table.leaves_find? h.ready (h.changes.tabled.exclusive t)
  removes := Table.leaves_remove h.ready (h.changes.tabled.exclusive t)
  removesDevice := Table.leaves_removeDevice h.ready (h.changes.tabled.exclusive t)
  resets := Table.leaves_resetToggles h.ready
  counts := Table.ensures_size (h.ready.sound.tablesFree t) ⟨rfl, rfl⟩

end Session

/-! ## Two tables -/

namespace State.SameSet

variable {f : Key Endpoint → Key Endpoint} {s s₂ s' s₂' : State}
  {held held₂ : List (Key Endpoint)} {references references₂ : Key Endpoint → Nat}

theorem taken_iff (h : s.SameSet f t s₂ t₂) (target : Target) :
    Session.Taken s₂ t₂ target ↔ Session.Taken s t target := by
  unfold Session.Taken
  constructor
  · rintro ⟨e₂, he₂, hmatches⟩
    obtain ⟨e, he, rfl⟩ := List.mem_map.mp (h.installed.mem_iff.mp he₂)
    exact ⟨e, he, h.targets e he ▸ hmatches⟩
  · rintro ⟨e, he, hmatches⟩
    exact ⟨f e, h.installed.mem_iff.mpr (List.mem_map_of_mem he), (h.targets e he).symm ▸ hmatches⟩

theorem exists_target_iff (h : s.SameSet f t s₂ t₂) (target : Target) :
    (∃ e ∈ s₂.installed t₂, s₂.targetOf e = target) ↔
      ∃ e ∈ s.installed t, s.targetOf e = target := by
  constructor
  · rintro ⟨e₂, he₂, htarget⟩
    obtain ⟨e, he, rfl⟩ := List.mem_map.mp (h.installed.mem_iff.mp he₂)
    exact ⟨e, he, (h.targets e he).symm.trans htarget⟩
  · rintro ⟨e, he, htarget⟩
    exact ⟨f e, h.installed.mem_iff.mpr (List.mem_map_of_mem he), (h.targets e he).trans htarget⟩

theorem ambiguous_iff (h : s.SameSet f t s₂ t₂) (target : Target) :
    s₂.Ambiguous t₂ target ↔ s.Ambiguous t target := by
  unfold Ambiguous
  rw [h.exists_target_iff, h.exists_target_iff]

theorem inj (h : s.SameSet f t s₂ t₂) (hnodup : (s₂.installed t₂).Nodup) {e e' : Key Endpoint}
    (he : e ∈ s.installed t) (he' : e' ∈ s.installed t) (hf : f e = f e') :
    e = e' :=
  List.inj_on_of_nodup_map (h.installed.nodup_iff.mp hnodup) he he' hf

/-- Both look-ups yield the same, unless the target is ambiguous. -/
theorem picks_eq (h : s.SameSet f t s₂ t₂) (hclear : ¬ s.Ambiguous t target)
    {e? e₂? : Option (Key Endpoint)} (he : s.Picks t target e?) (he₂ : s₂.Picks t₂ target e₂?) :
    e₂? = e?.map f := by
  cases e? with
  | none =>
      cases e₂? with
      | none => rfl
      | some e₂ => exact absurd ⟨e₂, he₂.mem⟩ (mt (h.taken_iff target).mp he)
  | some e =>
      cases e₂? with
      | none => exact absurd ⟨e, he.mem⟩ (mt (h.taken_iff target).mpr he₂)
      | some e₂ =>
          obtain ⟨hmem, hmatches⟩ := he.mem
          have heq := he₂.eq_of_matches (mt (h.ambiguous_iff target).mp hclear)
            (h.installed.mem_iff.mpr (List.mem_map_of_mem hmem))
            ((h.targets e hmem).symm ▸ hmatches)
          exact congrArg some heq.symm

/-- What is left in both tables is the same, if what they keep is. -/
theorem leaves (hleaves : s.Leaves t held references s')
    (hleaves₂ : s₂.Leaves t₂ held₂ references₂ s₂') (hheld : held₂.Perm (held.map f))
    (htargets : ∀ e ∈ held, s₂.targetOf (f e) = s.targetOf e) :
    s'.SameSet f t s₂' t₂ where
  installed := hleaves₂.held.trans (hheld.trans (hleaves.held.map f).symm)
  targets := fun e he => (hleaves₂.targets _).trans
    ((htargets e (hleaves.held.mem_iff.mp he)).trans (hleaves.targets e).symm)

/-- Of both tables the same part passes tests that agree. -/
theorem filter (h : s.SameSet f t s₂ t₂) {p p₂ : Key Endpoint → Bool}
    (hp : ∀ e ∈ s.installed t, p₂ (f e) = p e) :
    ((s₂.installed t₂).filter p₂).Perm (((s.installed t).filter p).map f) := by
  refine (h.installed.filter p₂).trans (List.Perm.of_eq ?_)
  rw [List.filter_map]
  exact congrArg (List.map f) (List.filter_congr fun e he => hp e he)

end State.SameSet

open Session in
theorem Session.Reachable.answersAlike {f : Key Endpoint → Key Endpoint} (h : Reachable w)
    (h₂ : Reachable w₂) (hsame : w.state.SameSet f t w₂.state t₂) :
    w.AnswersAlike f t w₂ t₂ := by
  have hacts := h.actsAsSet t
  have hacts₂ := h₂.actsAsSet t₂
  refine ⟨fun limit table name limit₂ table₂ name₂ e hoffers hoffers₂ htarget => ?_,
    fun target hclear => ?_, fun target hclear => ?_, fun address => ?_, fun target scope => ?_, ?_⟩
  · refine Ensures.mono (hacts.registers limit table name e hoffers) fun r w' hr =>
      Ensures.mono (hacts₂.registers limit₂ table₂ name₂ (f e) hoffers₂) fun r₂ w₂' hr₂ => ?_
    have hiff := hsame.taken_iff (w.state.targetOf e)
    rw [htarget] at hr₂
    split at hr
    · next htaken =>
        rw [if_pos (hiff.mpr htaken)] at hr₂
        refine .inl ⟨hr.1, hr₂.1, fun hshared hshared₂ => ?_⟩
        exact .leaves (hr.2.leaves hshared) (hr₂.2.leaves hshared₂) hsame.installed hsame.targets
    · next hvacant =>
        rw [if_neg (mt hiff.mp hvacant)] at hr₂
        refine .inr ⟨hr.1, hr₂.1, .leaves hr.2 hr₂.2 (hsame.installed.cons _) fun x hx => ?_⟩
        rcases List.mem_cons.mp hx with rfl | hx
        · exact htarget
        · exact hsame.targets x hx
  · refine Ensures.mono (hacts.finds target) fun r w' hr =>
      Ensures.mono (hacts₂.finds target) fun r₂ w₂' hr₂ => ?_
    obtain ⟨e?, rfl, hpicks, hleaves⟩ := hr
    obtain ⟨e₂?, rfl, hpicks₂, hleaves₂⟩ := hr₂
    obtain rfl := hsame.picks_eq hclear hpicks hpicks₂
    exact ⟨e?, rfl, rfl, .leaves hleaves hleaves₂ hsame.installed hsame.targets⟩
  · refine Ensures.mono (hacts.removes target) fun r w' hr =>
      Ensures.mono (hacts₂.removes target) fun r₂ w₂' hr₂ => ?_
    obtain ⟨e?, rfl, hpicks, hleaves⟩ := hr
    obtain ⟨e₂?, rfl, hpicks₂, hleaves₂⟩ := hr₂
    obtain rfl := hsame.picks_eq hclear hpicks hpicks₂
    refine ⟨_, rfl, by cases e? <;> rfl, .leaves hleaves hleaves₂ (hsame.filter fun e he => ?_)
      fun e he => hsame.targets e (List.mem_of_mem_filter he)⟩
    -- endpoints that stand for others do not stand for the one that is gone
    cases e? with
    | none => simp
    | some gone =>
        have hiff : f gone = f e ↔ gone = e :=
          ⟨hsame.inj (h₂.represents t₂).nodup hpicks.mem.1 he, congrArg f⟩
        simp [hiff]
  · refine Ensures.mono (hacts.removesDevice address) fun r w' hr =>
      Ensures.mono (hacts₂.removesDevice address) fun r₂ w₂' hr₂ => ?_
    obtain ⟨es, rfl, hgiven, hleaves⟩ := hr
    obtain ⟨es₂, rfl, hgiven₂, hleaves₂⟩ := hr₂
    refine ⟨es, es₂, rfl, rfl, ?_, .leaves hleaves hleaves₂ (hsame.filter fun e he => ?_)
      fun e he => hsame.targets e (List.mem_of_mem_filter he)⟩
    · refine hgiven₂.trans ((hsame.filter fun e he => ?_).trans (hgiven.map f).symm)
      rw [hsame.targets e he]
    · rw [hsame.targets e he]
  · refine Ensures.mono (hacts.resets target scope) fun r w' hr =>
      Ensures.mono (hacts₂.resets target scope) fun r₂ w₂' hr₂ => ?_
    obtain ⟨rfl, hleaves, htoggles⟩ := hr
    obtain ⟨rfl, hleaves₂, htoggles₂⟩ := hr₂
    refine ⟨⟨_, rfl, ?_⟩, .leaves hleaves hleaves₂ hsame.installed hsame.targets, fun e he => ?_⟩
    · rw [List.countP_eq_length_filter, List.countP_eq_length_filter]
      have hperm : ((w₂.state.installed t₂).filter fun e =>
          decide (scope.Reaches target (w₂.state.targetOf e))).Perm
            (((w.state.installed t).filter fun e =>
              decide (scope.Reaches target (w.state.targetOf e))).map f) :=
        hsame.filter fun e he => by rw [hsame.targets e he]
      rw [hperm.length_eq, List.length_map]
    · have he₂ : f e ∈ w₂.state.installed t₂ :=
        hsame.installed.mem_iff.mpr (List.mem_map_of_mem he)
      rw [htoggles, htoggles₂, hsame.targets e he]
      by_cases hreaches : scope.Reaches target (w.state.targetOf e)
      · exact .inl ⟨if_pos ⟨he, hreaches⟩, if_pos ⟨he₂, hreaches⟩⟩
      · exact .inr ⟨if_neg fun h => hreaches h.2, if_neg fun h => hreaches h.2⟩
  · refine Ensures.mono hacts.counts fun r w' hr => Ensures.mono hacts₂.counts fun r₂ w₂' hr₂ => ?_
    rw [hr.1, hr₂.1, hsame.installed.length_eq, List.length_map]

namespace Session

/-- Wherever user code looks at a table, it is the set of the endpoints that were registered and not
given back, and each operation acts on it as on a set.  The way in which a session led to that set
does not show: in any other session that led to the same set, all operations answer the same, unless
the target of a look-up is ambiguous. -/
theorem Reachable.table_refines_set (h : Reachable w) (t : Key Table) :
    w.Represents t ∧ w.ActsAsSet t ∧
      ∀ f w₂ t₂, Reachable w₂ → w.state.SameSet f t w₂.state t₂ → w.AnswersAlike f t w₂ t₂ :=
  ⟨h.represents t, h.actsAsSet t, fun _ _ _ h₂ hsame => h.answersAlike h₂ hsame⟩

/-- The commands that install both one-way halves of a number in some order. -/
def installing (order : List String) : List Command :=
  [.addBus "hub" (.bare Script), .addTable "table",
    .addEndpoint "hub" ⟨⟨1, 2, .inbound⟩, .bulk, 64⟩ "in",
    .addEndpoint "hub" ⟨⟨1, 2, .outbound⟩, .bulk, 64⟩ "out"] ++
      order.map (.register "table" ·)

/-- The order in which two halves were installed does not show in any operation, unless in a look-up
for both of them. -/
theorem table_refines_set_halves :
    (after 1 (installing ["in", "out"])).AnswersAlike id ⟨0⟩
        (after 1 (installing ["out", "in"])) ⟨0⟩ ∧
      (after 1 (installing ["in", "out"])).state.Picks ⟨0⟩ ⟨1, 2, .both⟩ (some ⟨0⟩) ∧
      (after 1 (installing ["out", "in"])).state.Picks ⟨0⟩ ⟨1, 2, .both⟩ (some ⟨1⟩) :=
  ⟨((Reachable.idle (idle_after 1 _)).table_refines_set ⟨0⟩).2.2 id _ ⟨0⟩
      (Reachable.idle (idle_after 1 _)) ⟨by decide, by decide⟩,
    State.picks_of_lookup? ((Reachable.idle (idle_after 1 _)).changes.tabled.exclusive ⟨0⟩)
      (show _ = some (0, _) by decide),
    State.picks_of_lookup? ((Reachable.idle (idle_after 1 _)).changes.tabled.exclusive ⟨0⟩)
      (show _ = some (0, _) by decide)⟩

end Session

end UsbTransfer
