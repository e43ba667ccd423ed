import UsbTransfer.Proofs.Cells
import UsbTransfer.Proofs.Fates
import UsbTransfer.Proofs.References
import UsbTransfer.Proofs.ValueSteps.Sessions

/-!
# Possessions

The value of a batch, and the endpoints that the value owns references on.  A value that was put
into a batch is taken out once, or destroyed once: at once when it is replaced, or after the bus was
told of the batch and after the handler, if the batch ends.  As long as it is there, the endpoints
that it owns are there.
-/

namespace UsbTransfer

open Run

/-! ## Fates -/

namespace Occurrence

/-- The value is taken out of the batch. -/
def takes (b : Key Batch) (n : Nat) : Occurrence → Bool
  | .dataTaken b' n' => b' = b ∧ n' = n
  | _ => false

theorem takes_iff {b : Key Batch} {n : Nat} {o : Occurrence} :
    o.takes b n ↔ o = .dataTaken b n := by
  cases o <;> simp [takes]

end Occurrence

namespace World

variable {w w' : World} {b : Key Batch} {n : Nat}

/-- A value that nobody has to care for any more was taken out or destroyed. -/
theorem closed_data (w : World) (b : Key Batch) (n : Nat) :
    w.closed (.data b n) =
      w.tally (Occurrence.takes b n) + w.tally (Occurrence.destroys (.data b n)) := by
  unfold closed tally
  induction w.history with
  | nil => rfl
  | cons m earlier ih =>
      simp only [List.countP_cons, ih]
      cases m.occurrence <;> simp [Occurrence.closed?, Occurrence.takes, Occurrence.destroys] <;>
        omega

theorem takenOut_iff : w.TakenOut (.data b n) ↔ 0 < w.tally (Occurrence.takes b n) := by
  simp only [TakenOut, tally_pos_iff, Occurrence.takes_iff]

/-- As long as a batch has a value, the endpoints that the value owns have references, and no bus
was told otherwise. -/
theorem alive_of_captured {a : Attachment} {e : Key Endpoint}
    (h : Changes Hands.empty World.empty w) (ha : (w.state.batches.get b).data = some a)
    (he : e ∈ a.value.captured) :
    0 < (w.state.endpoints.get e).references ∧ w.tally (Occurrence.farewellTo e) = 0 := by
  have hpos : 0 < (w.state.endpoints.get e).references :=
    (h.sound State.sound_empty).counted.references_pos (State.handlesOn_pos_of_data ha he)
  refine ⟨hpos, ?_⟩
  rw [h.remembers.once e, if_neg fun hgone => Nat.ne_of_gt hpos hgone.2]

/-- How values fare, as far as can be seen at a moment at which user code gets control. -/
structure ValuesFated (w : World) : Prop where
  /-- None is taken out twice, and one that is not taken out is not destroyed twice. -/
  once : ∀ b n, w.tally (Occurrence.takes b n) ≤ 1 ∧
    (w.tally (Occurrence.takes b n) = 0 → w.tally (Occurrence.destroys (.data b n)) ≤ 1)
  /-- Who is taken out was put there last, and was neither taken out nor destroyed before. -/
  taken : ∀ m earlier, m :: earlier <:+ w.history → ∀ b n, m.occurrence.takes b n →
    Batch.stored b earlier = some n ∧
      ∀ m' ∈ earlier, ¬ m'.occurrence.takes b n ∧ ¬ m'.occurrence.destroys (.data b n)
  /-- A batch on its endpoint has the value that was put there last, unless that was taken out. -/
  held : ∀ b, (w.state.batches.get b).endpoint ≠ none →
    (w.state.batches.get b).data.map (·.serial) = Batch.stored b w.history
  /-- That value is the one that was put there, but for changes. -/
  stems : ∀ b a, (w.state.batches.get b).data = some a → w.Stems b a
  /-- Who is in a batch was neither taken out nor destroyed. -/
  waiting : ∀ b n, (w.state.batches.get b).data.map (·.serial) = some n →
    w.tally (Occurrence.takes b n) = 0 ∧ w.tally (Occurrence.destroys (.data b n)) = 0
  /-- Meanwhile the endpoints are there that it owns references on. -/
  alive : ∀ b a, (w.state.batches.get b).data = some a → ∀ e ∈ a.value.captured,
    0 < (w.state.endpoints.get e).references ∧ w.tally (Occurrence.farewellTo e) = 0

/-- What the record tells of a value that is taken out. -/
theorem Stored.taken_unsettled (h : w.Stored) {m : Moment} {earlier : List Moment}
    (hm : m :: earlier <:+ w.history) (ho : m.occurrence.takes b n) :
    Batch.stored b earlier = some n ∧
      ∀ m' ∈ earlier, ¬ m'.occurrence.takes b n ∧ ¬ m'.occurrence.destroys (.data b n) := by
  obtain ⟨hstored, hclosed⟩ := h.taken m earlier hm b n (Occurrence.takes_iff.mp ho)
  rw [closed_data] at hclosed
  obtain ⟨htakes, hdestroys⟩ := Nat.add_eq_zero_iff.mp hclosed
  exact ⟨hstored, fun m' hm' =>
    ⟨List.countP_eq_zero.mp htakes m' hm', List.countP_eq_zero.mp hdestroys m' hm'⟩⟩

/-- A value is taken out once at most. -/
theorem Stored.tally_takes_le (h : w.Stored) (b : Key Batch) (n : Nat) :
    w.tally (Occurrence.takes b n) ≤ 1 := by
  refine countP_le_one fun {m m' earlier earlier'} hm hm' ho ho' => ?_
  have hnone := (h.taken_unsettled hm ho).2
  have hnone' := (h.taken_unsettled hm' ho').2
  rcases List.suffix_or_suffix_of_suffix hm hm' with hsuffix | hsuffix
  · rcases List.suffix_cons_iff.mp hsuffix with heq | hsuffix
    · exact heq
    · exact absurd ho (hnone' m (hsuffix.subset List.mem_cons_self)).1
  · rcases List.suffix_cons_iff.mp hsuffix with heq | hsuffix
    · exact heq.symm
    · exact absurd ho' (hnone m' (hsuffix.subset List.mem_cons_self)).1

end World

namespace Session

variable {w : World} {b : Key Batch} {n : Nat}

/-- Between commands a value that was put into a batch and not taken out is there or was
destroyed. -/
theorem Idle.data_account (h : Idle w) (htaken : w.tally (Occurrence.takes b n) = 0) :
    w.begun (.data b n) =
      w.state.attached (.data b n) + w.tally (Occurrence.destroys (.data b n)) := by
  have hout : ¬ w.TakenOut (.data b n) := by
    rw [World.takenOut_iff]
    omega
  have hbalance := h.moves.balance (.data b n) hout
  have hempty : World.empty.afloat (.data b n) = 0 := rfl
  rw [hempty, World.afloat, World.closed_eq_tally hout] at hbalance
  simp only [State.spareOf, List.count_nil] at hbalance
  omega

/-- Between commands a value that was put into a batch was taken out, or destroyed, or it is there
and the batch has a name. -/
theorem Idle.data_settled (h : Idle w) (hbegun : 0 < w.begun (.data b n)) :
    w.tally (Occurrence.takes b n) = 1 ∨
      w.tally (Occurrence.takes b n) = 0 ∧
        (w.tally (Occurrence.destroys (.data b n)) = 1 ∨
          w.tally (Occurrence.destroys (.data b n)) = 0 ∧
            b ∈ w.state.directory.batches.values ∧
              (w.state.batches.get b).data.map (·.serial) = some n) := by
  have hle := (Reachable.idle h).stored.tally_takes_le b n
  have honce := (h.moves.changes.begunOnce begunOnce_empty).once (.data b n)
  by_cases htaken : w.tally (Occurrence.takes b n) = 0
  case neg => exact .inl (by omega)
  case pos =>
    have haccount := h.data_account htaken
    by_cases hgone : w.state.attached (.data b n) = 0
    case pos => exact .inr ⟨htaken, .inl (by omega)⟩
    case neg =>
      have hheld := State.attached_data_iff.mp hgone
      refine .inr ⟨htaken, .inr ⟨by omega, ?_, hheld⟩⟩
      by_contra hnamed
      obtain ⟨a, ha, -⟩ := Option.map_eq_some_iff.mp hheld
      have hnone := (h.ended ⟨State.index_lt_of_data ha, hnamed⟩).data
      simp [hnone] at ha

/-- A value that was not taken out is destroyed once at most. -/
theorem Reachable.tally_destroys_data_le (h : Reachable w)
    (htaken : w.tally (Occurrence.takes b n) = 0) :
    w.tally (Occurrence.destroys (.data b n)) ≤ 1 := by
  have hlater : ∀ w₀ : World, Idle w₀ → w.history <:+ w₀.history →
      w.tally (Occurrence.destroys (.data b n)) ≤ 1 := by
    intro w₀ h₀ hsuffix
    have hle := World.tally_mono hsuffix (Occurrence.destroys (.data b n))
    have honce := (h₀.moves.changes.begunOnce begunOnce_empty).once (.data b n)
    by_cases hlast : w₀.tally (Occurrence.takes b n) = 0
    case pos =>
      have haccount := h₀.data_account hlast
      omega
    case neg =>
      -- It is taken out later, and is not destroyed until then.
      obtain ⟨m, hm, ho⟩ := World.tally_pos_iff.mp (Nat.pos_of_ne_zero hlast)
      obtain ⟨later, earlier, hhistory⟩ := List.append_of_mem hm
      have hsplit : m :: earlier <:+ w₀.history := ⟨later, hhistory.symm⟩
      have hnone := ((Reachable.idle h₀).stored.taken_unsettled hsplit ho).2
      have hfresh : ¬ m :: earlier <:+ w.history := fun hm =>
        List.countP_eq_zero.mp htaken m (hm.subset List.mem_cons_self) ho
      have hbefore : w.history <:+ earlier := by
        rcases List.suffix_or_suffix_of_suffix hsplit hsuffix with hm | hw
        · exact absurd hm hfresh
        · exact (List.suffix_cons_iff.mp hw).resolve_left fun heq =>
            hfresh (heq ▸ List.suffix_refl _)
      have hzero : w.tally (Occurrence.destroys (.data b n)) = 0 :=
        List.countP_eq_zero.mpr fun m' hm' => (hnone m' (hbefore.subset hm')).2
      omega
  cases h with
  | idle h => exact hlater w h (List.suffix_refl _)
  | amid h hm => exact hlater _ h hm

theorem Reachable.valuesFated (h : Reachable w) : w.ValuesFated where
  once := fun b n => ⟨h.stored.tally_takes_le b n, fun htaken => h.tally_destroys_data_le htaken⟩
  taken := fun m earlier hm b n ho => h.stored.taken_unsettled hm ho
  held := by
    intro b he
    cases hdata : (w.state.batches.get b).data with
    | none => exact (h.stored.empty b he hdata).symm
    | some a => exact (h.stored.held b a hdata).symm
  stems := h.stored.stems
  waiting := by
    intro b n hn
    obtain ⟨a, ha, rfl⟩ := Option.map_eq_some_iff.mp hn
    have hclosed := h.stored.whole b a ha
    rw [World.closed_data] at hclosed
    exact Nat.add_eq_zero_iff.mp hclosed
  alive := fun b a ha e he => World.alive_of_captured h.changes ha he

end Session

/-! ## Cells of all batches -/

namespace Session

variable {w w' : World} {b : Key Batch} {ops : List CellOp}

/-- What is done at once is done with the cell of the batch, or is aside of it, as long as the batch
is on its endpoint. -/
theorem Kept.valueStep (h : Kept b ops w) (hstep : ValueStep w w')
    (hb : b.index < w.state.batches.size)
    (he : (w'.state.batches.get b).endpoint ≠ none) :
    ∃ later, Kept b (later ++ ops) w' := by
  have haside : (w'.state.batches.get b).data = (w.state.batches.get b).data →
      ∃ later, Kept b (later ++ ops) w' :=
    fun hsame => ⟨[], h.aside hsame hstep.suffix⟩
  -- one batch is changed at most
  have hother : ∀ {b' : Key Batch} {f : Batch → Batch},
      w'.state.batches = w.state.batches.modify b' f → b ≠ b' →
        ∃ later, Kept b (later ++ ops) w' := by
    intro b' f hbatches hne
    refine haside ?_
    rw [hbatches, Arena.get_modify_of_ne _ _ hne]
  cases hstep with
  | alter hkeeps => exact haside (hkeeps.data b)
  | note | perish => exact haside rfl
  | build => exact haside (congrArg Batch.data (w.state.batches.get_push_of_lt _ hb))
  | put b' value =>
      by_cases hsame : b = b'
      case pos =>
        subst hsame
        exact ⟨[.set value], h.put hb value⟩
      case neg =>
        refine haside (congrArg Batch.data ?_)
        simp only [World.note_state, World.alter_state, State.attachData, State.detachData,
          Arena.modify_modify]
        exact Arena.get_modify_of_ne _ _ hsame
  | @change b' a c value hdata hchange =>
      by_cases hsame : b = b'
      case pos =>
        subst hsame
        exact ⟨[.change c], h.change hdata hchange⟩
      case neg => exact hother rfl hsame
  | @take b' a hdata =>
      by_cases hsame : b = b'
      case pos =>
        subst hsame
        exact ⟨[.take a.value.type], h.take hdata⟩
      case neg => exact hother rfl hsame
  | @lose b' a hdata hnone =>
      by_cases hsame : b = b'
      case pos =>
        subst hsame
        have hkept := Arena.apply_get_modify w.state.batches b b
          (fun batch => { batch with data := none }) Batch.endpoint fun _ => rfl
        exact absurd (hkept.trans hnone) he
      case neg => exact hother rfl hsame

/-- Whatever is done in a session, and on whichever objects, is one thing after the other that is
done with the cell of the batch, as long as the batch is on its endpoint. -/
theorem Kept.run (h : Kept b ops w) (hsteps : ValueSteps w w')
    (hb : b.index < w.state.batches.size) (he : (w'.state.batches.get b).endpoint ≠ none) :
    ∃ later, Kept b (later ++ ops) w' := by
  induction hsteps with
  | refl => exact ⟨[], h⟩
  | tail hbefore hstep ih =>
      have hb₁ := Nat.lt_of_lt_of_le hb (ValueSteps.size_le hbefore)
      obtain ⟨earlier, hkept⟩ := ih fun hnone => he (hstep.released hb₁ hnone)
      obtain ⟨later, hlater⟩ := hkept.valueStep hstep hb₁ he
      exact ⟨later ++ earlier, by rwa [List.append_assoc]⟩

/-- Every batch on its endpoint has the value that was made of its cell since it was built. -/
theorem ValueSteps.kept (h : ValueSteps .empty w) (he : (w.state.batches.get b).endpoint ≠ none) :
    ∃ ops, Kept b ops w := by
  induction h with
  | refl => exact absurd rfl he
  | @tail w w' _ hstep ih =>
      rcases Nat.lt_or_ge b.index w.state.batches.size with hold | hnew
      · obtain ⟨ops, hkept⟩ := ih fun hnone => he (hstep.released hold hnone)
        obtain ⟨later, hlater⟩ := hkept.valueStep hstep hold he
        exact ⟨later ++ ops, hlater⟩
      · obtain ⟨e, he⟩ := Option.ne_none_iff_exists'.mp he
        obtain ⟨hkey, e, rfl⟩ := hstep.built_of_new hnew (State.index_lt_of_endpoint he)
        exact ⟨[], .built e hkey⟩

/-- A command that is carried out in whichever world user code finds itself makes what it makes of
the cell. -/
theorem Reachable.ensures_kept (h : Reachable w) (hkept : Kept b ops w)
    (hb : b.index < w.state.batches.size) (limit : Nat) (command : Command) :
    Ensures (carryOut (player limit) none command) w fun _ w' =>
      (w'.state.batches.get b).endpoint ≠ none → ∃ later, Kept b (later ++ ops) w' := by
  apply Ensures.mono (ensures_carryOut_valueSteps h.stored.dated limit command)
  exact fun _ _ hsteps he => hkept.run hsteps hb he

end Session

/-! ## The end of a value -/

/-- A value that left its batch goes away: the references that it owns are released one after the
other, and then it is destroyed.  Others work aside of the batch meanwhile. -/
def Attachment.Perishes (hands : Hands) (b : Key Batch) (a : Attachment) (w w' : World) : Prop :=
  ∃ w₁ nested, w.LosesAll (hands.hold b) a.value.captured w₁ ∧ w.Trace nested w₁ ∧
    AsideOf b nested ∧ w' = w₁.note (a.destroyed b)

/-- A value is put into a batch. -/
def World.supplied (w : World) (b : Key Batch) (value : DataValue) : World :=
  (w.alter fun s => (s.detachData b).attachData b value).note (.dataAttached b w.state.serial)

namespace Batch

variable {play : Player} {hands : Hands} {w w' : World} {b : Key Batch}

/-- A value is put into a batch, and the one that was there goes away at once. -/
def Replaces (hands : Hands) (b : Key Batch) (value : DataValue) (w w' : World) : Prop :=
  ((w.state.batches.get b).data = none → w' = w.supplied b value) ∧
    ∀ a, (w.state.batches.get b).data = some a → a.Perishes hands b (w.supplied b value) w'

theorem ensures_attachData_replacing (hplay : play.Fair) (hw : w.Ready hands)
    (hb : hands.Lent b) {value : DataValue}
    (hspare : ∀ e, value.captured.count e ≤ w.state.spare e) :
    Ensures (attachData play b value) w fun _ w' => Replaces hands b value w w' := by
  have hloose := hw.loose_of_lent hb
  unfold attachData Replaces World.supplied
  simp only [ensures_bind, ensures_takeData?]
  cases hdata : (w.state.batches.get b).data with
  | none =>
      simp only [then_ok, ensures_bind, ensures_getState, ensures_modifyState, ensures_record,
        ensures_pure]
      have hsame : w.alter (fun s => (s.detachData b).attachData b value) =
          w.alter (·.attachData b value) := by
        rw [World.alter, State.detachData_of_none hdata]
        rfl
      exact ⟨fun _ => hsame ▸ rfl, fun _ h => by cases h⟩
  | some a =>
      have hgone := Belonging.get_detach (.data a) hloose
      have hloose' := Belonging.loose_detach (.data a) hloose
      simp only [then_ok, ensures_bind, ensures_getState, ensures_modifyState, ensures_record]
      obtain ⟨hmoves, hspare'⟩ := Belonging.ready_of_replaced (x := .data a) hw hb.1 hdata hspare
        fun hroom => .attachData hb.1 hloose'.1 (congrArg Batch.data hgone) hroom
      have hready := hmoves.ready hw
      have hlooseLater := hready.loose_of_lent hb
      apply Ensures.mono (Belonging.ensures_destroy_losing hplay hready hlooseLater (.data a)
        hspare')
      rintro r w' ⟨w₁, hloses, rfl, -⟩
      obtain ⟨nested, htrace, haside⟩ := (hloses.moves hspare').trace hlooseLater
      refine ⟨fun h => absurd h (Option.some_ne_none a), fun a' ha' => ?_⟩
      obtain rfl := Option.some.inj ha'
      exact ⟨w₁, nested, hloses, htrace, haside, rfl⟩

/-- A batch loses its value, if it has one, and that goes away. -/
def LosesValue (hands : Hands) (b : Key Batch) (w w' : World) : Prop :=
  ((w.state.batches.get b).data = none → w' = w) ∧
    ∀ a, (w.state.batches.get b).data = some a →
      a.Perishes hands b (w.alter (·.detachData b)) w'

theorem Sheds.losesValue {r : Except Fault Unit} (h : Sheds hands b w (dataOf b w) r w')
    (hloose : w.Loose b) :
    LosesValue hands b w w' := by
  unfold LosesValue
  cases hdata : (w.state.batches.get b).data with
  | none =>
      rw [dataOf, hdata] at h
      cases h
      exact ⟨fun _ => rfl, fun _ h => by cases h⟩
  | some a =>
      rw [dataOf, hdata] at h
      cases h with
      | @shed _ w₁ _ hx hmoves hr hloses =>
          obtain ⟨nested, htrace, haside⟩ := hmoves.trace (Belonging.loose_detach _ hloose)
          refine ⟨fun h => absurd h (Option.some_ne_none a), fun a' ha' => ?_⟩
          obtain rfl := Option.some.inj ha'
          exact ⟨w₁, nested, hloses, htrace, haside, rfl⟩

/-! ## The end of a batch -/

/-- A handler that is invoked leaves the value of the batch alone. -/
theorem Delivers.data_eq {r : Except Fault Unit} (h : Delivers hands b w r w')
    (hloose : w.Loose b) :
    (w'.state.batches.get b).data = (w.state.batches.get b).data := by
  cases h with
  | nothing => rfl
  | handed _ hmoves | failed _ hmoves =>
      have hdata := congrArg Batch.data (handed_rest hloose hmoves).1
      exact hdata

theorem Completes.data_eq {r : Except Fault Unit} (h : Completes play hands b w r w')
    (hloose : w.Loose b) :
    (w'.state.batches.get b).data = (w.state.batches.get b).data := by
  cases h with
  | interrupted _ hreset => exact congrArg Batch.data (hreset.aside (hloose.note _)).1
  | reset _ hreset hdeliver =>
      obtain ⟨hsame, hloose₁⟩ := hreset.aside (hloose.note _)
      exact (hdeliver.data_eq hloose₁).trans (congrArg Batch.data hsame)
  | unreset _ hreset hdeliver =>
      obtain ⟨hsame, hloose₁⟩ := hreset.aside (hloose.note _)
      exact (hdeliver.data_eq (hloose₁.note _)).trans (congrArg Batch.data hsame)

/-- A batch that ends has its value until it is released. -/
theorem Ending.Begins.data_eq {ending : Ending} {r : Except Fault Unit}
    (h : ending.Begins play hands b w r w') (hloose : w.Loose b) :
    (w'.state.batches.get b).data = (w.state.batches.get b).data := by
  cases ending with
  | finish => exact Completes.data_eq h hloose
  | abort =>
      have hcompleted := Completes.data_eq h (loose_cancelled hloose)
      rw [batch_cancelled hloose] at hcompleted
      exact hcompleted
  | destroy | drop =>
      obtain ⟨-, rfl⟩ := h
      rfl

/-- When the bus of a batch that is released is told of it, the batch has lost its endpoint and
nothing else.  If the bus is not told, it has given up when the last reference on the endpoint went
away. -/
theorem Releases.told {r : Except Fault Unit} {e : Key Endpoint}
    (h : Releases play hands b w r w') (hw : w.state.Sound) (hb : hands.MayEnd b)
    (hloose : w.Loose b) (he : (w.state.batches.get b).endpoint = some e) :
    (∃ w₁, Moves hands [] [] w w₁ ∧
        w₁.state.batches.get b = { w.state.batches.get b with endpoint := none } ∧
        ⟨.batchFarewell (w.state.busOf e) b, w₁.state⟩ :: w₁.history <:+ w'.history) ∨
      Moves hands [] [] w w' ∧
        w'.state.batches.get b = { w.state.batches.get b with endpoint := none } ∧
        ∃ s earlier, ⟨.endpointFarewell (w.state.busOf e) e, s⟩ :: earlier <:+ w'.history ∧
          w.history <:+ earlier := by
  have hmoved : ∀ {w₁ w₂ : World} {plan : BusPlan Script}, (givenUp b e w).Loses e w₁ →
      Moves (hands.hold b) [] [] w₁ w₂ → w₂.state.KeepsLabel (w.state.busOf e) plan →
        Moves hands [] [] w (w₂.alter (·.setPlan (w.state.busOf e) plan)) ∧
          (w₂.alter (·.setPlan (w.state.busOf e) plan)).state.batches.get b =
            { w.state.batches.get b with endpoint := none } := by
    intro w₁ w₂ plan hloses hmoves hplan
    exact ⟨(lost_moves hw hb hloose he hloses hmoves).trans (.consult hplan),
      (lost_rest hloose hloses hmoves).1⟩
  cases h with
  | before hnone => simp [hnone] at he
  | @interrupted e' w₁ _ fault he' hfaults hlast hloses hmoves =>
      obtain rfl := Option.some.inj (he.symm.trans he')
      refine .inr ⟨lost_moves hw hb hloose he hloses hmoves, (lost_rest hloose hloses hmoves).1, ?_⟩
      cases hloses with
      | shared hshared => exact absurd hlast (Nat.ne_of_gt hshared)
      | last =>
          exact ⟨_, _, hmoves.suffix, (List.suffix_cons _ _).trans (List.suffix_cons _ _)⟩
  | @refused e' plan w₁ w₂ _ fault he' _ hloses hmoves _ hplan htold =>
      obtain rfl := Option.some.inj (he.symm.trans he')
      obtain ⟨hbefore, hsame⟩ := hmoved hloses hmoves hplan
      exact .inl ⟨_, hbefore, hsame, htold.suffix⟩
  | @done e' plan reply w₁ w₂ w₃ he' _ hloses hmoves _ hplan htold =>
      obtain rfl := Option.some.inj (he.symm.trans he')
      obtain ⟨hbefore, hsame⟩ := hmoved hloses hmoves hplan
      exact .inl ⟨_, hbefore, hsame, htold.suffix.trans (List.suffix_cons _ _)⟩

end Batch

/-- A batch has that value or none, and the endpoints that the value owns are there. -/
structure World.Guards (w : World) (b : Key Batch) (data? : Option Attachment) : Prop where
  data : (w.state.batches.get b).data = data?
  alive : ∀ a, data? = some a → ∀ e ∈ a.value.captured,
    0 < (w.state.endpoints.get e).references ∧ w.tally (Occurrence.farewellTo e) = 0

namespace Session

variable {play : Player} {hands : Hands} {w w' : World} {b : Key Batch} {ops : List CellOp}

/-- A value takes the place of another one at once, if the value that is meant can be had. -/
theorem ensures_setData_replacing (hplay : play.Fair) (hw : w.Ready hands) (hb : hands.Lent b)
    (spec : DataSpec) :
    Ensures (setData play b spec) w fun _ w' =>
      ∃ w₁, w₁.history = w.history ∧ w₁.state.batches = w.state.batches ∧
        w₁.state.serial = w.state.serial ∧
        (spec.value? w.state.directory).elim (w' = w₁)
          fun value => Batch.Replaces hands b value w₁ w' := by
  unfold setData
  rw [ensures_bind]
  apply Ensures.mono ((takeValue_orderly hw spec).and (ensures_takeValue spec))
  rintro r w₁ ⟨hmoves, answer, rfl, hvalue, hserial, hbatches, hhistory⟩
  rw [← hvalue, then_ok]
  cases answer with
  | error mistake => exact ⟨w₁, hhistory, hbatches, hserial, rfl⟩
  | ok value =>
      refine Use.ensures_answered (Ensures.mono (Batch.ensures_attachData_replacing hplay
        (hmoves.ready hw) hb (Moves.spare_taken hmoves)) fun _ _ hreplaced => ?_) _
      exact ⟨w₁, hhistory, hbatches, hserial, hreplaced⟩

/-- A script that is told of the end of a batch makes uses of it, and nothing else is done with its
cell while it is released. -/
theorem Kept.released {limit : Nat} {r : Except Fault Unit} (h : Kept b ops w)
    (hrelease : Batch.Releases (player limit) hands b w r w') (hw : w.Ready hands)
    (hloose : w.Loose b) (hb : hands.MayEnd b) :
    ∃ later, Kept b (later ++ ops) w' := by
  have hlost : ∀ {e : Key Endpoint} {w₁ w₂ : World},
      (w.state.batches.get b).endpoint = some e → (Batch.givenUp b e w).Loses e w₁ →
        Moves (hands.hold b) [] [] w₁ w₂ → Kept b ops w₂ := by
    intro e w₁ w₂ he hloses hmoves
    have hdata := congrArg Batch.data (Batch.lost_rest hloose hloses hmoves).1
    exact h.aside hdata (Batch.lost_moves hw.sound hb hloose he hloses hmoves).suffix
  have htold : ∀ {e : Key Endpoint} {plan : BusPlan Script} {w₁ w₂ w₃ : World},
      (w.state.batches.get b).endpoint = some e → (Batch.givenUp b e w).Loses e w₁ →
        Moves (hands.hold b) [] [] w₁ w₂ → w₂.state.KeepsLabel (w.state.busOf e) plan →
          (∃ code, w₃ = ((player limit).run (some b) code).worldAfter
            ((w₂.alter (·.setPlan (w.state.busOf e) plan)).note
              (.batchFarewell (w.state.busOf e) b))) →
            ∃ later, Kept b (later ++ ops) w₃ := by
    rintro e plan w₁ w₂ w₃ he hloses hmoves hplan ⟨code, rfl⟩
    have hnoted : Kept b ops ((w₂.alter (·.setPlan (w.state.busOf e) plan)).note
        (.batchFarewell (w.state.busOf e) b)) :=
      (hlost he hloses hmoves).aside rfl (List.suffix_cons _ _)
    have hconsult : Moves hands [] [] w₂ _ := .consult hplan
    have hready := ((Batch.lost_moves hw.sound hb hloose he hloses hmoves).trans hconsult).ready hw
    have hloose₂ := (Batch.lost_rest hloose hloses hmoves).2
    cases code with
    | none => exact ⟨[], hnoted⟩
    | some script =>
        exact (hnoted.played ((hready.lend (hloose₂.alter rfl rfl)).note _) hb.mayTouch.lent
          limit script).worldAfter
  cases hrelease with
  | before => exact ⟨[], h⟩
  | interrupted he _ _ hloses hmoves => exact ⟨[], hlost he hloses hmoves⟩
  | refused he _ hloses hmoves _ hplan _ _ hcode => exact htold he hloses hmoves hplan hcode
  | done he _ hloses hmoves _ hplan _ hcode =>
      obtain ⟨later, hkept⟩ := htold he hloses hmoves hplan hcode
      exact ⟨later, hkept.aside rfl (List.suffix_cons _ _)⟩

/-- What becomes of the value of a batch that ends.  It is in the batch, and the endpoints that it
owns are there, when the bus is told of the batch, who may use it then; only a bus that gives up
when the last reference on the endpoint of the batch goes away is not told.  Then the handler that
is left goes away, and after that the value. -/
inductive EndsValue (b : Key Batch) (w : World) : World → Prop where
  | intro {e : Key Endpoint} {w₁ w₂ w₃ : World} {inHandler : List Occurrence}
      (he : (w.state.batches.get b).endpoint = some e)
      (htold : (∃ s earlier, ⟨.batchFarewell (w.state.busOf e) b, s⟩ :: earlier <:+ w₁.history ∧
          w.history <:+ earlier ∧ World.Guards ⟨s, earlier⟩ b (w.state.batches.get b).data) ∨
        (∃ s earlier, ⟨.endpointFarewell (w.state.busOf e) e, s⟩ :: earlier <:+ w₁.history ∧
          w.history <:+ earlier) ∧ w₁.Guards b (w.state.batches.get b).data ∧
            ∀ a, (w.state.batches.get b).data = some a → e ∉ a.value.captured)
      (hnone : (w₁.state.batches.get b).endpoint = none)
      (hhandler : w₁.Trace
        (Batch.shedding inHandler ((w₁.state.batches.get b).handler.map (·.destroyed b))) w₂)
      (haside : AsideOf b inHandler)
      (hsame : w₂.state.batches.get b = { w₁.state.batches.get b with handler := none })
      (hkept : ∀ ops, Kept b ops w → ∃ later, Kept b (later ++ ops) w₂)
      (hdata : Batch.LosesValue Hands.empty b w₂ w₃)
      (hempty : (w₃.state.batches.get b).data = none) :
      EndsValue b w (w₃.note (.batchEnded b))

theorem endsValue_of_course {limit : Nat} {ending : Batch.Ending} {r : Except Fault Unit}
    (h : Batch.Course (player limit) Hands.empty b
      (ending.Begins (player limit) Hands.empty b w) r w')
    (hchanges : Changes Hands.empty World.empty w) (hown : Batch.Own Hands.empty b w) :
    EndsValue b w w' := by
  have hw := hchanges.ready ready_empty
  have hb := hown.mayEnd
  have hloose := hown.loose
  obtain ⟨e, he⟩ := Option.isSome_iff_exists.mp hown.endpoint
  obtain @⟨r₁, r₂, r₃, r₄, w₁, w₃, w₄, w₅, hbegin, hrelease, hhandler, hdata⟩ := h
  obtain ⟨hbefore, hendpoint, hloose₁⟩ := hbegin.moves hw.sound hb hloose
  have hready₁ := hbefore.ready hw
  have hvalue := hbegin.data_eq hloose
  have hbus : w₁.state.busOf e = w.state.busOf e :=
    (hbefore.changes.busOf_eq (hw.sound.index_lt_of_endpoint he)).1
  obtain ⟨hnone, hloose₃⟩ := hrelease.rest hloose₁
  obtain ⟨inHandler, hinHandler, hshed⟩ := hhandler.trace hloose₃
  obtain ⟨hsame, hloose₄⟩ := hhandler.rest_handler hloose₃
  rw [Batch.handlerOf, Option.map_map] at hshed
  -- the endpoints of the value are there as long as it is in the batch
  have hguards : ∀ {w₂ : World}, Moves Hands.empty [] [] w₁ w₂ →
      w₂.state.batches.get b = { w₁.state.batches.get b with endpoint := none } →
        w₂.Guards b (w.state.batches.get b).data := by
    intro w₂ hmoves hlost
    have hkept : (w₂.state.batches.get b).data = (w.state.batches.get b).data :=
      (congrArg Batch.data hlost).trans hvalue
    refine ⟨hkept, fun a ha x hx => ?_⟩
    exact World.alive_of_captured ((hchanges.trans hbefore.changes).trans hmoves.changes)
      (hkept.trans ha) hx
  refine .intro he ?_ hnone hshed hinHandler hsame (fun ops hops => ?_)
    (hdata.losesValue hloose₄) (congrArg Batch.data (hdata.rest_data hloose₄).1)
  · rw [← hbus]
    rcases hrelease.told hready₁.sound hb hloose₁ (hendpoint.trans he) with
      ⟨w₂, hmoves, hlost, hm⟩ | ⟨hmoves, hlost, s, earlier, hm, hlater⟩
    · exact .inl ⟨_, _, hm, hbefore.suffix.trans hmoves.suffix, hguards hmoves hlost⟩
    · have hkept := hguards hmoves hlost
      refine .inr ⟨⟨s, earlier, hm, hbefore.suffix.trans hlater⟩, hkept, fun a ha hmem => ?_⟩
      have hnews := (hkept.alive a ha e hmem).2
      exact absurd (List.countP_eq_zero.mp hnews _ (hm.subset List.mem_cons_self))
        (by simp [Occurrence.farewellTo])
  · have hops₁ : Kept b ops w₁ := hops.aside hvalue hbefore.suffix
    obtain ⟨later, hkept⟩ := hops₁.released hrelease hready₁ hloose₁ hb
    have hstays := congrArg Batch.data hsame
    exact ⟨later, hkept.aside hstays hshed.suffix⟩

/-- What is known of the cell of a batch that somebody has at hand, and of the values in it. -/
structure CellOwned (b : Key Batch) (ops : List CellOp) (limit : Nat) (w : World) : Prop
    extends CellKept b ops limit w where
  /-- The value that is there goes away at once when another one is put there. -/
  replaces : ∀ spec, Ensures (setData (player limit) b spec) w fun _ w' =>
    ∃ w₁, w₁.history = w.history ∧ w₁.state.batches = w.state.batches ∧
      w₁.state.serial = w.state.serial ∧
      (spec.value? w.state.directory).elim (w' = w₁)
        fun value => Batch.Replaces (Hands.empty.lend b) b value w₁ w'

theorem Kept.owned (h : Kept b ops w) (hw : w.Ready Hands.empty) (hloose : w.Loose b)
    (limit : Nat) :
    CellOwned b ops limit w where
  toCellKept := h.cell hw hloose limit
  replaces := fun spec =>
    ensures_setData_replacing (player_fair limit) (hw.lend hloose)
      (Hands.MayTouch.lent List.not_mem_nil) spec

/-- However a batch comes to end by its name, its value is there when its bus is told, and goes away
after its handler. -/
theorem Reachable.ensures_endsValue (h : Reachable w) (name : String)
    (hfind : w.state.directory.batches.find? name = some b) (limit : Nat)
    (ending : Batch.Ending) :
    Ensures (endBatch name fun b => ending.run (player limit) b) w fun _ w' =>
      EndsValue b (w.unname name) w' := by
  obtain ⟨hunname, hown⟩ := h.own_unnamed hfind
  have hchanges : Changes Hands.empty World.empty (w.unname name) :=
    h.changes.trans hunname.changes
  rw [ensures_endBatch hfind]
  apply Ensures.mono (Batch.ensures_ending (player_fair limit) (hunname.ready h.ready) hown.loose
    hown.mayEnd ending)
  exact fun r w' hcourse => endsValue_of_course hcourse hchanges hown

/-- The value of a batch is what was made of its cell: the value that was put there last, with the
changes that were made since, unless it was taken out, which only succeeds as what it is.  Each
value ends once.  It goes away at once when another one takes its place, or it is taken out once, or
it goes away with the batch, after the bus was told and after the handler; and with it the
references on endpoints that it owns, which are there until then. -/
theorem Reachable.values_owned (h : Reachable w) :
    w.ValuesFated ∧
    (Idle w → ∀ b n, 0 < w.begun (.data b n) →
      w.tally (Occurrence.takes b n) = 1 ∨
        w.tally (Occurrence.takes b n) = 0 ∧
          (w.tally (Occurrence.destroys (.data b n)) = 1 ∨
            w.tally (Occurrence.destroys (.data b n)) = 0 ∧
              b ∈ w.state.directory.batches.values ∧
                (w.state.batches.get b).data.map (·.serial) = some n)) ∧
    (∀ b, (w.state.batches.get b).endpoint ≠ none →
      (∃ ops, Kept b ops w) ∧ ∀ ops, Kept b ops w → ∀ limit command,
        Ensures (carryOut (player limit) none command) w fun _ w' =>
          (w'.state.batches.get b).endpoint ≠ none → ∃ later, Kept b (later ++ ops) w') ∧
    (∀ b ops limit, Kept b ops w → w.Loose b → CellOwned b ops limit w) ∧
    ∀ name b limit, w.state.directory.batches.find? name = some b →
      (∀ ops, Kept b ops w →
        CellOwned b ops limit (w.unname name) ∧
          ∀ use : Use, ((use.run (player limit) b).worldAfter
            (w.unname name)).state.directory.batches.find? name = none →
              Ensures (carryOut (player limit) none (use.command name)) w fun r w' =>
                (Ensures (use.run (player limit) b) (w.unname name) fun r' _ => r' = r) ∧
                  Kept b ((use.cellOp? w.state.directory).toList ++ ops) w') ∧
      ∀ ending, Ensures (endBatch name fun b => Batch.Ending.run (player limit) b ending) w
        fun _ w' => EndsValue b (w.unname name) w' := by
  refine ⟨h.valuesFated, fun hidle b n hbegun => hidle.data_settled hbegun,
    fun b he => ⟨ValueSteps.kept h.valueSteps he, fun ops hkept limit command => ?_⟩,
    fun b ops limit hkept hloose => hkept.owned h.ready hloose limit,
    fun name b limit hfind => ⟨fun ops hkept => ⟨?_, fun use hfree => ?_⟩, fun ending => ?_⟩⟩
  · obtain ⟨e, he⟩ := Option.ne_none_iff_exists'.mp he
    exact h.ensures_kept hkept (State.index_lt_of_endpoint he) limit command
  · obtain ⟨hunname, hown⟩ := h.own_unnamed hfind
    have hunnamed : Kept b ops (w.unname name) := hkept.aside rfl (List.suffix_refl _)
    exact hunnamed.owned (hunname.ready h.ready) hown.loose limit
  · exact hkept.commanded h hfind hfree
  · exact h.ensures_endsValue name hfind limit ending

theorem Kept.after {commands : List Command} {limit : Nat} {op : CellOp}
    (h : Kept b ops (after limit commands)) (name : String)
    (hfind : (after limit commands).state.directory.batches.find? name = some b) (use : Use)
    (hfree : ((use.run (player limit) b).worldAfter
      ((after limit commands).unname name)).state.directory.batches.find? name = none)
    (hop : use.cellOp? (after limit commands).state.directory = some op) :
    Kept b (op :: ops) (after limit (commands ++ [use.command name])) := by
  have hkept := h.commanded (.idle (idle_after limit commands)) hfind hfree
  rw [hop] at hkept
  exact after_concat (hkept.mono fun _ _ hr => hr.2)

/-- A batch gets a number, which is changed and replaced by the only handle on its own endpoint.
Its bus looks at that when it is told of the batch, and is told of the endpoint after that. -/
theorem values_owned_own_endpoint :
    ∃ w w', Reachable w ∧ w.state.directory.batches.find? "transfer" = some ⟨0⟩ ∧
      Kept ⟨0⟩ [.set (.handle ⟨0⟩), .change (.add 2), .set (.number 1)] w ∧
      CellOwned ⟨0⟩ [.set (.handle ⟨0⟩), .change (.add 2), .set (.number 1)] 2
        (w.unname "transfer") ∧
      w.tally (Occurrence.destroys (.data ⟨0⟩ 1)) = 1 ∧
      (endBatch "transfer" (Batch.Ending.finish.run (player 2))).worldAfter w = w' ∧
      EndsValue ⟨0⟩ (w.unname "transfer") w' ∧ w'.tally (Occurrence.farewellTo ⟨0⟩) = 1 := by
  let hub : List Command :=
    [.addBus "hub" { BusPlan.bare Script with
        batchDestroy := ⟨[⟨some [.getData "$" .handle], .done⟩]⟩ },
      .addEndpoint "hub" default "pipe"]
  let made := hub ++ [.newBatch "pipe" "transfer"]
  have hmade : Kept ⟨0⟩ [] (after 2 made) :=
    after_concat (ensures_newBatch_kept (h := ⟨0, ⟨0⟩⟩) (by decide) (by decide) (by decide))
  have hput := hmade.after "transfer" (by decide) (.setData (.number 1)) (by decide) rfl
  have hchanged := hput.after "transfer" (by decide) (.changeData (.add 2)) (by decide)
    rfl
  have hreplaced := hchanged.after "transfer" (by decide) (.setData (.handle "pipe")) (by decide)
    (show _ = some (.set (.handle ⟨0⟩)) by decide)
  obtain ⟨w, hw⟩ : ∃ w, w = after 2 (made ++ [.setData "transfer" (.number 1)] ++
      [.changeData "transfer" (.add 2)] ++ [.setData "transfer" (.handle "pipe")]) := ⟨_, rfl⟩
  have hkept : Kept ⟨0⟩ [.set (.handle ⟨0⟩), .change (.add 2), .set (.number 1)] w :=
    hw ▸ hreplaced
  have hidle : Idle w := hw ▸ idle_after 2 _
  have hfind : w.state.directory.batches.find? "transfer" = some ⟨0⟩ := by
    rw [hw]
    decide
  have howned := (Reachable.idle hidle).values_owned
  obtain ⟨hcell, hends⟩ := howned.2.2.2.2 "transfer" ⟨0⟩ 2 hfind
  refine ⟨w, _, .idle hidle, hfind, hkept, (hcell _ hkept).1, ?_, rfl, (hends .finish).worldAfter,
    ?_⟩
  · rw [hw]
    decide
  · rw [hw]
    decide

end Session
end UsbTransfer
