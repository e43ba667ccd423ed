import UsbTransfer.Proofs.Cells

/-!
# Steps of values

Another reading of what an operation does, for all that concerns the values of batches.  A value is
put into a batch, changed there, taken out or lost in one step, and only a batch that was released
loses one.  So the record tells which value a batch has, and that none is taken out twice.
-/

namespace UsbTransfer

open Run

namespace Occurrence

/-- The batch that comes into being, or whose value comes, is taken out or goes away. -/
def dataOf? : Occurrence → Option (Key Batch)
  | .batchBuilt b _ | .dataAttached b _ | .dataTaken b _ | .dataDestroyed b _ _ => some b
  | _ => none

/-- Who is not about values settles none. -/
theorem closed?_ne_of_dataOf {b : Key Batch} {n : Nat} {o : Occurrence}
    (h : o.dataOf? ≠ some b) :
    o.closed? ≠ some (.data b n) := by
  cases o <;> simp_all [closed?, dataOf?]

end Occurrence

/-- The number of the value that a batch has by the record: the last one that was put there, unless
that was taken out. -/
def Batch.stored (b : Key Batch) : List Moment → Option Nat
  | [] => none
  | m :: earlier =>
      match m.occurrence with
      | .batchBuilt b' _ => if b' = b then none else stored b earlier
      | .dataAttached b' n => if b' = b then some n else stored b earlier
      | .dataTaken b' _ => if b' = b then none else stored b earlier
      | _ => stored b earlier

theorem Batch.stored_cons_of_ne {b : Key Batch} {m : Moment} (h : m.occurrence.dataOf? ≠ some b)
    (earlier : List Moment) :
    stored b (m :: earlier) = stored b earlier := by
  cases ho : m.occurrence <;> simp_all [stored, Occurrence.dataOf?]

/-! ## Steps -/

/-- Batches have their values, and those that were released stay so. -/
structure State.KeepsData (s s' : State) : Prop where
  data : ∀ b, (s'.batches.get b).data = (s.batches.get b).data
  released : ∀ b, (s.batches.get b).endpoint = none → (s'.batches.get b).endpoint = none
  size : s'.batches.size = s.batches.size
  serial : s.serial ≤ s'.serial

/-- What is done at once with the value of a batch, or aside of all values. -/
inductive ValueStep (w : World) : World → Prop where
  | alter {f : State → State} (hkeeps : w.state.KeepsData (f w.state)) : ValueStep w (w.alter f)
  | note {o : Occurrence} (hnone : o.dataOf? = none) : ValueStep w (w.note o)
  /-- A value that is not in the batch any more is destroyed. -/
  | perish {b : Key Batch} {n : Nat} (lastWords : Option String) (hn : n < w.state.serial)
      (hgone : (w.state.batches.get b).data.map (·.serial) ≠ some n) :
      ValueStep w (w.note (.dataDestroyed b n lastWords))
  | build (e : Key Endpoint) :
      ValueStep w ((w.alter (·.addBatch e)).note (.batchBuilt w.state.batches.nextKey e))
  /-- A value takes the place of the one that is there. -/
  | put (b : Key Batch) (value : DataValue) :
      ValueStep w
        ((w.alter fun s => (s.detachData b).attachData b value).note
          (.dataAttached b w.state.serial))
  | change {b : Key Batch} {a : Attachment} {c : DataChange} {value : DataValue}
      (hdata : (w.state.batches.get b).data = some a) (hchange : a.value.change? c = some value) :
      ValueStep w
        (w.alter fun s => { s with
          batches := s.batches.modify b fun batch =>
            { batch with data := some { a with value := value } } })
  | take {b : Key Batch} {a : Attachment} (hdata : (w.state.batches.get b).data = some a) :
      ValueStep w ((w.alter (·.detachData b)).note (.dataTaken b a.serial))
  /-- A batch without an endpoint loses its value. -/
  | lose {b : Key Batch} {a : Attachment} (hdata : (w.state.batches.get b).data = some a)
      (he : (w.state.batches.get b).endpoint = none) :
      ValueStep w (w.alter (·.detachData b))

/-- A sequence of such steps. -/
abbrev ValueSteps : World → World → Prop :=
  Relation.ReflTransGen ValueStep

variable {w w' : World} {b : Key Batch} {n : Nat}

namespace ValueStep

theorem serial_le (h : ValueStep w w') : w.state.serial ≤ w'.state.serial := by
  cases h with
  | alter hkeeps => exact hkeeps.serial
  | put => exact Nat.le_succ _
  | _ => exact Nat.le_refl _

theorem size_le (h : ValueStep w w') : w.state.batches.size ≤ w'.state.batches.size := by
  cases h with
  | alter hkeeps => exact Nat.le_of_eq hkeeps.size.symm
  | note | perish => exact Nat.le_refl _
  | build => simp [State.addBatch]
  | put => simp [State.attachData, State.detachData]
  | change | take | lose => simp [State.detachData]

theorem suffix (h : ValueStep w w') : w.history <:+ w'.history := by
  cases h with
  | alter | change | lose => exact List.suffix_refl _
  | note | perish | build | put | take => exact List.suffix_cons _ _

/-- A batch that was not there before is one that was built. -/
theorem built_of_new (h : ValueStep w w') (hnew : w.state.batches.size ≤ b.index)
    (hb : b.index < w'.state.batches.size) :
    b = w.state.batches.nextKey ∧
      ∃ e, w' = (w.alter (·.addBatch e)).note (.batchBuilt b e) := by
  have hother : w'.state.batches.size = w.state.batches.size →
      b = w.state.batches.nextKey ∧
        ∃ e, w' = (w.alter (·.addBatch e)).note (.batchBuilt b e) :=
    fun hsize => absurd (hsize ▸ hb) (Nat.not_lt_of_le hnew)
  cases h with
  | alter hkeeps => exact hother hkeeps.size
  | note | perish => exact hother rfl
  | build e =>
      simp only [World.note_state, World.alter_state, State.addBatch, Arena.size_push] at hb
      obtain rfl : b = w.state.batches.nextKey :=
        Key.ext (Nat.le_antisymm (Nat.le_of_lt_succ hb) hnew)
      exact ⟨rfl, e, rfl⟩
  | put => exact hother (by simp [State.attachData, State.detachData])
  | change | take | lose => exact hother (Arena.size_modify _ _ _)

/-- A released batch stays without an endpoint. -/
theorem released (h : ValueStep w w') (hb : b.index < w.state.batches.size)
    (he : (w.state.batches.get b).endpoint = none) :
    (w'.state.batches.get b).endpoint = none := by
  have hmodified : ∀ (b' : Key Batch) (f : Batch → Batch),
      (∀ batch, (f batch).endpoint = batch.endpoint) →
        ((w.state.batches.modify b' f).get b).endpoint = none :=
    fun b' f hf => (Arena.apply_get_modify _ b' b f Batch.endpoint hf).trans he
  cases h with
  | alter hkeeps => exact hkeeps.released b he
  | note | perish => exact he
  | build e =>
      exact (congrArg Batch.endpoint (w.state.batches.get_push_of_lt _ hb)).trans he
  | put b' value =>
      simp only [World.note_state, World.alter_state, State.attachData, State.detachData,
        Arena.modify_modify]
      exact hmodified _ _ fun _ => rfl
  | change | take | lose => exact hmodified _ _ fun _ => rfl

/-- A batch gets no value, unless one that gets its number then. -/
theorem data_cases (h : ValueStep w w') {a : Attachment}
    (ha : (w'.state.batches.get b).data = some a) :
    (∃ a', (w.state.batches.get b).data = some a' ∧ a'.serial = a.serial) ∨
      a.serial = w.state.serial ∧ a.serial < w'.state.serial := by
  have hself : (w.state.batches.get b).data = some a →
      (∃ a', (w.state.batches.get b).data = some a' ∧ a'.serial = a.serial) ∨
        a.serial = w.state.serial ∧ a.serial < w'.state.serial :=
    fun ha => .inl ⟨a, ha, rfl⟩
  cases h with
  | alter hkeeps => exact hself ((hkeeps.data b).symm.trans ha)
  | note | perish => exact hself ha
  | build e =>
      simp only [World.note_state, World.alter_state, State.addBatch, Arena.get_push] at ha
      split at ha
      · cases ha
      · exact hself ha
  | put b' value =>
      simp only [World.note_state, World.alter_state, State.attachData, State.detachData,
        Arena.modify_modify, Arena.get_modify] at ha
      split at ha
      · obtain rfl := Option.some.inj ha
        exact .inr ⟨rfl, Nat.lt_succ_self _⟩
      · exact hself ha
  | @change b' a' c value hdata =>
      simp only [World.alter_state, Arena.get_modify] at ha
      split at ha
      · next heq =>
          obtain rfl := Option.some.inj ha
          exact .inl ⟨a', heq.1 ▸ hdata, rfl⟩
      · exact hself ha
  | take | lose =>
      simp only [World.note_state, World.alter_state, State.detachData, Arena.get_modify] at ha
      split at ha
      · cases ha
      · exact hself ha

end ValueStep

theorem ValueSteps.size_le (h : ValueSteps w w') :
    w.state.batches.size ≤ w'.state.batches.size := by
  induction h with
  | refl => exact Nat.le_refl _
  | tail _ hstep ih => exact Nat.le_trans ih hstep.size_le

theorem ValueSteps.released (h : ValueSteps w w') (hb : b.index < w.state.batches.size)
    (he : (w.state.batches.get b).endpoint = none) :
    (w'.state.batches.get b).endpoint = none := by
  induction h with
  | refl => exact he
  | tail hbefore hstep ih =>
      exact hstep.released (Nat.lt_of_lt_of_le hb (ValueSteps.size_le hbefore)) ih

/-- Every moment on record was reached by such steps. -/
theorem ValueSteps.moment (h : ValueSteps .empty w) {m : Moment} {earlier : List Moment}
    (hm : m :: earlier <:+ w.history) :
    ValueSteps .empty ⟨m.state, m :: earlier⟩ := by
  induction h with
  | refl => simp [World.empty] at hm
  | @tail w w' hbefore hstep ih =>
      have hnoted : ∀ o, w'.history = ⟨o, w'.state⟩ :: w.history →
          ValueSteps .empty ⟨m.state, m :: earlier⟩ := by
        intro o hhistory
        rw [hhistory] at hm
        rcases List.suffix_cons_iff.mp hm with hlast | hearlier
        · obtain ⟨rfl, rfl⟩ := List.cons.inj hlast
          have hworld : w' = ⟨w'.state, ⟨o, w'.state⟩ :: w.history⟩ := by
            rw [← hhistory]
          exact hworld ▸ hbefore.tail hstep
        · exact ih hearlier
      cases hstep with
      | alter | change | lose => exact ih hm
      | note | perish | build | put | take => exact hnoted _ rfl

/-! ## What the record tells -/

/-- The value of a batch came to be what it is from the one that was put there, by changes. -/
def World.Stems (w : World) (b : Key Batch) (a : Attachment) : Prop :=
  ∃ s earlier v changes, ⟨.dataAttached b a.serial, s⟩ :: earlier <:+ w.history ∧
    (s.batches.get b).data = some ⟨a.serial, v⟩ ∧ a.value = v.changedBy changes

/-- Values of batches have got their numbers. -/
def World.Dated (w : World) : Prop :=
  ∀ b a, (w.state.batches.get b).data = some a → a.serial < w.state.serial

/-- The record tells which values batches have. -/
structure World.Stored (w : World) : Prop where
  dated : w.Dated
  /-- A batch has the value that was put there last. -/
  held : ∀ b a, (w.state.batches.get b).data = some a → Batch.stored b w.history = some a.serial
  /-- A batch on its endpoint has it unless it was taken out. -/
  empty : ∀ b, (w.state.batches.get b).endpoint ≠ none → (w.state.batches.get b).data = none →
    Batch.stored b w.history = none
  stems : ∀ b a, (w.state.batches.get b).data = some a → w.Stems b a
  /-- What a batch has was neither taken out nor destroyed. -/
  whole : ∀ b a, (w.state.batches.get b).data = some a → w.closed (.data b a.serial) = 0
  old : ∀ b n, w.closed (.data b n) ≠ 0 → n < w.state.serial
  /-- What is taken out is the value that the batch has by the record, and it was neither taken out
  nor destroyed before. -/
  taken : ∀ m earlier, m :: earlier <:+ w.history → ∀ b n, m.occurrence = .dataTaken b n →
    Batch.stored b earlier = some n ∧ (World.mk m.state earlier).closed (.data b n) = 0

namespace World

theorem Stems.mono {a : Attachment} (h : w.Stems b a) (hsuffix : w.history <:+ w'.history) :
    w'.Stems b a := by
  obtain ⟨s, earlier, v, changes, hm, hdata, hvalue⟩ := h
  exact ⟨s, earlier, v, changes, hm.trans hsuffix, hdata, hvalue⟩

theorem closed_of_history {s : State} {i : Item} (h : w'.history = w.history) :
    (World.mk s w'.history).closed i = w.closed i := by
  rw [closed, tally, h]
  rfl

/-- What leaves no record leaves values where they are, or changes them, or takes them from batches
that were released. -/
theorem Stored.of_unrecorded (hw : w.Stored) (hhistory : w'.history = w.history)
    (hserial : w.state.serial ≤ w'.state.serial)
    (hdata : ∀ b a', (w'.state.batches.get b).data = some a' →
      ∃ a, (w.state.batches.get b).data = some a ∧ a'.serial = a.serial ∧
        ∃ changes, a'.value = a.value.changedBy changes)
    (hempty : ∀ b, (w'.state.batches.get b).endpoint ≠ none →
      (w'.state.batches.get b).data = none →
        (w.state.batches.get b).endpoint ≠ none ∧ (w.state.batches.get b).data = none) :
    w'.Stored := by
  have hclosed : ∀ i, w'.closed i = w.closed i := fun i => closed_of_history hhistory
  constructor
  case dated =>
    intro b a' ha'
    obtain ⟨a, ha, hsame, -⟩ := hdata b a' ha'
    exact hsame ▸ Nat.lt_of_lt_of_le (hw.dated b a ha) hserial
  case held =>
    intro b a' ha'
    obtain ⟨a, ha, hsame, -⟩ := hdata b a' ha'
    rw [hhistory, hsame]
    exact hw.held b a ha
  case empty =>
    intro b he hnone
    obtain ⟨he, hnone⟩ := hempty b he hnone
    rw [hhistory]
    exact hw.empty b he hnone
  case stems =>
    intro b a' ha'
    obtain ⟨a, ha, hsame, changes, hvalue⟩ := hdata b a' ha'
    obtain ⟨s, earlier, v, changes', hm, hput, hvalue'⟩ := hw.stems b a ha
    refine ⟨s, earlier, v, changes ++ changes', ?_, ?_, ?_⟩
    · rw [hhistory, hsame]
      exact hm
    · rw [hsame]
      exact hput
    · rw [hvalue, hvalue', DataValue.changedBy, DataValue.changedBy, DataValue.changedBy,
        List.foldr_append]
  case whole =>
    intro b a' ha'
    obtain ⟨a, ha, hsame, -⟩ := hdata b a' ha'
    rw [hclosed, hsame]
    exact hw.whole b a ha
  case old =>
    intro b n hn
    rw [hclosed] at hn
    exact Nat.lt_of_lt_of_le (hw.old b n hn) hserial
  case taken =>
    intro m earlier hm
    rw [hhistory] at hm
    exact hw.taken m earlier hm

/-- An occurrence tells nothing new of values that it is not about. -/
theorem Stored.of_recorded {o : Occurrence} {P : Key Batch → Prop} (hw : w.Stored)
    (hhistory : w'.history = ⟨o, w'.state⟩ :: w.history) (hP : ∀ b, o.dataOf? = some b → P b)
    (hserial : w.state.serial ≤ w'.state.serial)
    (hothers : ∀ b, ¬ P b → w'.state.batches.get b = w.state.batches.get b)
    (hheld : ∀ b a, P b → (w'.state.batches.get b).data = some a →
      Batch.stored b w'.history = some a.serial ∧ w'.Stems b a ∧ a.serial < w'.state.serial ∧
        w'.closed (.data b a.serial) = 0)
    (hempty : ∀ b, P b → (w'.state.batches.get b).endpoint ≠ none →
      (w'.state.batches.get b).data = none → Batch.stored b w'.history = none)
    (hclosed : ∀ b n, o.closed? = some (.data b n) → n < w'.state.serial)
    (htaken : ∀ b n, o = .dataTaken b n →
      Batch.stored b w.history = some n ∧ w.closed (.data b n) = 0) :
    w'.Stored := by
  have hother : ∀ b, ¬ P b → o.dataOf? ≠ some b := fun b hb ho => hb (hP b ho)
  have hstored : ∀ b, ¬ P b → Batch.stored b w'.history = Batch.stored b w.history := by
    intro b hb
    rw [hhistory]
    exact Batch.stored_cons_of_ne (hother b hb) _
  have hall : ∀ b n, w'.closed (.data b n) =
      w.closed (.data b n) + if o.closed? = some (.data b n) then 1 else 0 := by
    intro b n
    rw [closed, tally, hhistory, List.countP_cons, closed, tally]
    simp only [decide_eq_true_eq]
  have hkept : ∀ b, ¬ P b → ∀ n, w'.closed (.data b n) = w.closed (.data b n) := by
    intro b hb n
    rw [hall, if_neg (Occurrence.closed?_ne_of_dataOf (hother b hb)), Nat.add_zero]
  constructor
  case dated =>
    intro b a ha
    by_cases hb : P b
    case pos => exact (hheld b a hb ha).2.2.1
    case neg => exact Nat.lt_of_lt_of_le (hw.dated b a (hothers b hb ▸ ha)) hserial
  case held =>
    intro b a ha
    by_cases hb : P b
    case pos => exact (hheld b a hb ha).1
    case neg => exact (hstored b hb).trans (hw.held b a (hothers b hb ▸ ha))
  case empty =>
    intro b he hdata
    by_cases hb : P b
    case pos => exact hempty b hb he hdata
    case neg =>
      rw [hothers b hb] at he hdata
      exact (hstored b hb).trans (hw.empty b he hdata)
  case stems =>
    intro b a ha
    by_cases hb : P b
    case pos => exact (hheld b a hb ha).2.1
    case neg =>
      exact (hw.stems b a (hothers b hb ▸ ha)).mono (hhistory ▸ List.suffix_cons _ _)
  case whole =>
    intro b a ha
    by_cases hb : P b
    case pos => exact (hheld b a hb ha).2.2.2
    case neg => exact (hkept b hb _).trans (hw.whole b a (hothers b hb ▸ ha))
  case old =>
    intro b n hn
    by_cases ho : o.closed? = some (.data b n)
    case pos => exact hclosed b n ho
    case neg =>
      rw [hall, if_neg ho, Nat.add_zero] at hn
      exact Nat.lt_of_lt_of_le (hw.old b n hn) hserial
  case taken =>
    intro m earlier hm b n ho
    rw [hhistory] at hm
    rcases List.suffix_cons_iff.mp hm with hlast | hearlier
    · obtain ⟨rfl, rfl⟩ := List.cons.inj hlast
      exact htaken b n ho
    · exact hw.taken m earlier hearlier b n ho

/-- An occurrence that is not about values tells nothing new of them. -/
theorem Stored.note {o : Occurrence} (hw : w.Stored) (hnone : o.dataOf? = none) :
    (w.note o).Stored := by
  refine hw.of_recorded (P := fun _ => False) rfl (by simp [hnone]) (Nat.le_refl _)
    (fun _ _ => rfl) (by simp) (by simp) ?_ ?_
  · intro b n ho
    exact absurd ho (Occurrence.closed?_ne_of_dataOf (by simp [hnone]))
  · rintro b n rfl
    cases hnone

theorem Stored.perish (hw : w.Stored) (hn : n < w.state.serial) (lastWords : Option String)
    (hgone : (w.state.batches.get b).data.map (·.serial) ≠ some n) :
    (w.note (.dataDestroyed b n lastWords)).Stored := by
  refine hw.of_recorded (P := (· = b)) rfl (by simp [Occurrence.dataOf?]) (Nat.le_refl _)
    (fun _ _ => rfl) ?_ ?_ ?_ (by simp)
  · rintro b a rfl ha
    refine ⟨hw.held b a ha, (hw.stems b a ha).mono (List.suffix_cons _ _), hw.dated b a ha, ?_⟩
    have hother : a.serial ≠ n := fun h => hgone (h ▸ congrArg _ ha)
    rw [closed_note, hw.whole b a ha]
    simp [Occurrence.closed?, hother.symm]
  · rintro b rfl he hdata
    exact hw.empty b he hdata
  · intro b' n' ho
    obtain ⟨-, rfl⟩ := Item.data.inj (Option.some.inj ho)
    exact hn

/-- A batch that comes into being has no value. -/
theorem Stored.build (hw : w.Stored) (e : Key Endpoint) :
    ((w.alter (·.addBatch e)).note (.batchBuilt w.state.batches.nextKey e)).Stored := by
  have hget : ∀ b, (w.state.addBatch e).batches.get b =
      if b = w.state.batches.nextKey then
        ⟨.ofDescriptor (w.state.endpoints.get e).descriptor, some e, none, none⟩
      else w.state.batches.get b :=
    fun b => w.state.batches.get_push _ b
  refine hw.of_recorded (P := (· = w.state.batches.nextKey)) rfl
    (by simp [Occurrence.dataOf?]) (Nat.le_refl _) ?_ ?_ ?_ (by simp [Occurrence.closed?]) (by simp)
  · intro b hne
    exact (hget b).trans (if_neg hne)
  · rintro b a rfl ha
    rw [World.note_state, World.alter_state, hget, if_pos rfl] at ha
    cases ha
  · rintro b rfl he hdata
    simp [Batch.stored]

theorem Stored.put (hw : w.Stored) (b : Key Batch) (value : DataValue) :
    ((w.alter fun s => (s.detachData b).attachData b value).note
      (.dataAttached b w.state.serial)).Stored := by
  have hget : ∀ b', ((w.state.detachData b).attachData b value).batches.get b' =
      if b' = b ∧ b.index < w.state.batches.size then
        { w.state.batches.get b with data := some ⟨w.state.serial, value⟩ }
      else w.state.batches.get b' := by
    intro b'
    rw [State.attachData, State.detachData, Arena.modify_modify, Arena.get_modify]
    rfl
  refine hw.of_recorded (P := (· = b)) rfl (by simp [Occurrence.dataOf?]) (Nat.le_succ _)
    ?_ ?_ ?_ (by simp [Occurrence.closed?]) (by simp)
  · intro b' hne
    exact (hget b').trans (if_neg fun h => hne h.1)
  · rintro b a rfl ha
    have hb : b.index < w.state.batches.size := by
      have hlt := State.index_lt_of_data ha
      simpa [State.attachData, State.detachData] using hlt
    have hnew := (hget b).trans (if_pos ⟨rfl, hb⟩)
    obtain rfl : ⟨w.state.serial, value⟩ = a :=
      Option.some.inj ((congrArg Batch.data hnew).symm.trans ha)
    have hstored : Batch.stored b
        (⟨.dataAttached b w.state.serial, (w.state.detachData b).attachData b value⟩ ::
          w.history) = some w.state.serial := by
      simp [Batch.stored]
    refine ⟨hstored, ⟨_, _, value, [], List.suffix_refl _, congrArg Batch.data hnew, rfl⟩,
      Nat.lt_succ_self _, ?_⟩
    have hnone : w.closed (.data b w.state.serial) = 0 := by
      by_contra hclosed
      exact Nat.lt_irrefl _ (hw.old b _ hclosed)
    rw [closed_note, closed_alter, hnone]
    rfl
  · -- Only a key that no batch has is without a value now.
    rintro b rfl he hnone
    rw [World.note_state, World.alter_state, hget] at he hnone
    split at hnone
    · cases hnone
    · next hb =>
        rw [if_neg hb, w.state.batches.get_of_size_le b (by simpa using hb)] at he
        exact absurd rfl he

theorem Stored.take {a : Attachment} (hw : w.Stored)
    (hdata : (w.state.batches.get b).data = some a) :
    ((w.alter (·.detachData b)).note (.dataTaken b a.serial)).Stored := by
  have hget : ∀ b', (w.state.detachData b).batches.get b' =
      if b' = b then { w.state.batches.get b with data := none }
      else w.state.batches.get b' := by
    intro b'
    simp only [State.detachData, Arena.get_modify, State.index_lt_of_data hdata, and_true]
  refine hw.of_recorded (P := (· = b)) rfl (by simp [Occurrence.dataOf?]) (Nat.le_refl _)
    ?_ ?_ ?_ ?_ ?_
  · intro b' hne
    exact (hget b').trans (if_neg hne)
  · rintro b a' rfl ha'
    rw [World.note_state, World.alter_state, hget, if_pos rfl] at ha'
    cases ha'
  · rintro b rfl he hnone
    simp [Batch.stored]
  · intro b' n hn
    obtain ⟨rfl, rfl⟩ := Item.data.inj (Option.some.inj hn)
    exact hw.dated b a hdata
  · intro b' n hn
    obtain ⟨rfl, rfl⟩ := Occurrence.dataTaken.inj hn
    exact ⟨hw.held b a hdata, hw.whole b a hdata⟩

end World

theorem ValueStep.stored (h : ValueStep w w') (hw : w.Stored) : w'.Stored := by
  have hself : ∀ b a, (w.state.batches.get b).data = some a →
      ∃ a₀, (w.state.batches.get b).data = some a₀ ∧ a.serial = a₀.serial ∧
        ∃ changes, a.value = a₀.value.changedBy changes :=
    fun b a ha => ⟨a, ha, rfl, [], rfl⟩
  cases h with
  | note hnone => exact hw.note hnone
  | perish lastWords hn hgone => exact hw.perish hn lastWords hgone
  | alter hkeeps =>
      refine hw.of_unrecorded rfl hkeeps.serial ?_ ?_
      · intro b a ha
        exact hself b a ((hkeeps.data b).symm.trans ha)
      · intro b he hdata
        exact ⟨fun hnone => he (hkeeps.released b hnone), (hkeeps.data b).symm.trans hdata⟩
  | @change b a c value hdata hchange =>
      refine hw.of_unrecorded rfl (Nat.le_refl _) ?_ ?_
      · intro b' a' ha'
        rw [World.alter_state, Arena.get_modify] at ha'
        split at ha'
        · next heq =>
            obtain rfl := Option.some.inj ha'
            obtain rfl := heq.1
            refine ⟨a, hdata, rfl, [c], ?_⟩
            simp [DataValue.changedBy, DataValue.changed, hchange]
        · exact hself b' a' ha'
      · intro b' he hnone
        rw [World.alter_state, Arena.get_modify] at he hnone
        split at hnone
        · cases hnone
        · next hne =>
            rw [if_neg hne] at he
            exact ⟨he, hnone⟩
  | @lose b a hdata hreleased =>
      refine hw.of_unrecorded rfl (Nat.le_refl _) ?_ ?_
      · intro b' a' ha'
        rw [World.alter_state, State.detachData, Arena.get_modify] at ha'
        split at ha'
        · cases ha'
        · exact hself b' a' ha'
      · intro b' he hnone
        rw [World.alter_state, State.detachData, Arena.get_modify] at he hnone
        split at he
        · next heq =>
            obtain rfl := heq.1
            exact absurd hreleased he
        · next hne =>
            rw [if_neg hne] at hnone
            exact ⟨he, hnone⟩
  | build e => exact hw.build e
  | put b value => exact hw.put b value
  | take hdata => exact hw.take hdata

/-! ## Operations -/

theorem ValueStep.dated (h : ValueStep w w') (hw : w.Dated) : w'.Dated := by
  intro b a ha
  rcases h.data_cases ha with ⟨a', ha', hsame⟩ | ⟨-, hnew⟩
  · exact hsame ▸ Nat.lt_of_lt_of_le (hw b a' ha') h.serial_le
  · exact hnew

theorem ValueSteps.dated (h : ValueSteps w w') (hw : w.Dated) : w'.Dated :=
  kept_of_steps (fun _ _ => ValueStep.dated) h hw

/-- The batch has not the value with the number, nor will it ever get that. -/
def World.Gone (b : Key Batch) (n : Nat) (w : World) : Prop :=
  n < w.state.serial ∧ (w.state.batches.get b).data.map (·.serial) ≠ some n

/-- A value that is gone does not return. -/
theorem ValueSteps.gone (h : ValueSteps w w') (hgone : w.Gone b n) : w'.Gone b n := by
  induction h with
  | refl => exact hgone
  | @tail w w' _ hstep ih =>
      refine ⟨Nat.lt_of_lt_of_le ih.1 hstep.serial_le, fun hn => ?_⟩
      obtain ⟨a, ha, rfl⟩ := Option.map_eq_some_iff.mp hn
      rcases hstep.data_cases ha with ⟨a', ha', hsame⟩ | ⟨hsame, -⟩
      · exact ih.2 (hsame ▸ congrArg _ ha')
      · exact Nat.lt_irrefl _ (hsame ▸ ih.1)

/-- Whatever its outcome is, the operation goes by such steps, from worlds in which values have got
their numbers. -/
abbrev GoesByValueSteps {α : Type} (m : Run α) : Prop :=
  Follows (StepsFrom World.Dated ValueStep) m

theorem Run.Follows.ensures_valueSteps {α : Type} {m : Run α} (h : GoesByValueSteps m)
    (hw : w.Dated) :
    Ensures m w fun _ w' => ValueSteps w w' :=
  Follows.ensures_from h (fun _ _ => ValueStep.dated) hw

end UsbTransfer
