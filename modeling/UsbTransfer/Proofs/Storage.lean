import UsbTransfer.Session.Storage
import UsbTransfer.Proofs.Creation

/-!
# Operations on names

Putting something under a name, taking it from there and using it under its name are orderly.  A
handle in use is not disposed of under its user's hands, and a batch in use has no name and is
put back when the use is over.
-/

namespace UsbTransfer
namespace Session

open Run

variable {play : Player} {hands : Hands} {w : World}

@[simp]
theorem ensures_modifyDirectory (f : Directory → Directory) (w : World)
    (Q : Except Fault Unit → World → Prop) :
    Ensures (modifyDirectory f) w Q ↔ Q (.ok ()) (w.alter (·.setDirectory f)) :=
  Iff.rfl

/-! ## Handles -/

/-- What is not handed out was not moved. -/
theorem ensures_takeHandle (hw : w.Ready hands) (name : String) :
    Ensures (takeHandle name) w fun r w' =>
      ∃ answer : Except Mistake (Key Endpoint), r = .ok answer ∧
        Moves hands [] (Item.references answer.toOption.toList) w w' := by
  unfold takeHandle
  simp only [ensures_bind, ensures_getState, then_ok]
  split
  · exact ⟨_, rfl, .refl hands w⟩
  · next handle hfind =>
      split
      · exact ⟨_, rfl, .refl hands w⟩
      · next hloan =>
          simp only [ensures_bind, ensures_modifyState, then_ok, ensures_pure]
          exact ⟨_, rfl, .takeHandle hw.sound hfind hloan⟩

/-- Tables have the names that they had. -/
theorem ensures_takeHandle_tables (name : String) :
    Ensures (takeHandle name) w fun _ w' =>
      w'.state.directory.tables = w.state.directory.tables := by
  unfold takeHandle
  simp only [ensures_bind, ensures_getState, then_ok]
  split
  · exact rfl
  · split
    · exact rfl
    · simp only [ensures_bind, ensures_modifyState, then_ok, ensures_pure]
      rfl

/-- Handles are moved one after the other, or those moved already are released. -/
theorem takeHandles_orderly (hplay : play.Fair) (names : List String) {taken : List (Key Endpoint)}
    (hw : w.Ready hands) (hspare : ∀ e, taken.count e ≤ w.state.spare e) :
    Orderly hands Fault.Raised (Item.references taken)
      (fun all => Item.references (all.toOption.getD [])) (takeHandles play taken names) w := by
  induction names generalizing w taken with
  | nil =>
      refine (Moves.refl hands w).settle fun i => ?_
      simp only [List.count_nil, Except.toOption, Option.getD_some]
      omega
  | cons name rest ih =>
      unfold Orderly takeHandles
      simp only [ensures_bind]
      apply Ensures.mono (ensures_takeHandle hw name)
      intro r w₁ hr
      obtain ⟨answer, rfl, hmoves⟩ := hr
      have hready := hmoves.ready hw
      rw [then_ok]
      cases answer with
      | error mistake =>
          have hspare₁ : ∀ e, taken.count e ≤ w₁.state.spare e := by
            intro e
            have he := hspare e
            have hkept := hmoves.spare e
            simp only [Except.toOption, Option.toList_none, Item.references_nil,
              List.count_nil] at hkept
            omega
          simp only [ensures_bind]
          apply Ensures.mono (Endpoint.releaseAll_orderly hplay hready hspare₁)
          intro r w₂ hr
          have hboth := hmoves.trans hr.moves
          cases r with
          | ok _ => exact hboth
          | error fault => exact ⟨hboth, hr.2⟩
      | ok e =>
          have hspare₁ : ∀ x, (taken ++ [e]).count x ≤ w₁.state.spare x := by
            intro x
            have hx := hspare x
            have hkept := hmoves.spare x
            simp only [Except.toOption, Option.toList_some, List.count_nil,
              Item.count_reference_references] at hkept
            rw [List.count_append]
            omega
          have hmore : Moves hands (Item.references taken)
              (Item.references (taken ++ [e])) w w₁ := by
            refine hmoves.settle fun i => ?_
            simp only [Except.toOption, Option.toList_some, Item.references_append,
              List.count_append, List.count_nil]
            omega
          exact Orderly.after hmore (ih hready hspare₁)

/-- A name that takes a reference gives away the one that it stood for. -/
theorem keepHandle_orderly (hplay : play.Fair) (hw : w.Ready hands) (name : String)
    {e : Key Endpoint} (hspare : 0 < w.state.spare e) :
    Orderly hands Fault.Raised [.reference e] (fun _ => []) (keepHandle play name e) w := by
  have hkeep : Moves hands [.reference e] _ w (w.alter (·.keepHandle name e)) :=
    .keepHandle hw.sound name hspare
  have hready := hkeep.ready hw
  unfold Orderly keepHandle
  simp only [ensures_bind, ensures_getState, then_ok, ensures_modifyState]
  cases hfind : w.state.directory.handles.find? name with
  | none =>
      simp only [hfind, Option.filter_none, Option.map_none, Option.toList_none] at hkeep
      exact hkeep
  | some replaced =>
      by_cases hloan : replaced ∈ w.state.directory.loans
      · simp only [hfind, hloan, Option.filter_some, not_true, decide_false,
          Bool.false_eq_true, if_false, Option.map_none, Option.toList_none] at hkeep
        simp only [Directory.OnLoan, hloan, if_true]
        exact hkeep
      · simp only [hfind, hloan, Option.filter_some, not_false_eq_true, decide_true, if_true,
          Option.map_some, Option.toList_some] at hkeep
        simp only [Directory.OnLoan, hloan, if_false]
        refine (Endpoint.release_orderly hplay hready ?_).after hkeep
        have hfreed := hkeep.spare replaced.endpoint
        have hcount := hkeep.spare e
        simp only [Item.references_cons, Item.references_nil, List.count_cons, List.count_nil,
          beq_iff_eq, Item.reference.injEq, if_true] at hfreed hcount
        split at hfreed
        · next heq =>
            subst heq
            omega
        · omega

theorem keepOrRelease_orderly (hplay : play.Fair) (hw : w.Ready hands) (keep : Option String)
    {e : Key Endpoint} (hspare : 0 < w.state.spare e) :
    Orderly hands Fault.Raised [.reference e] (fun _ => []) (keepOrRelease play keep e) w := by
  cases keep with
  | none => exact Endpoint.release_orderly hplay hw hspare
  | some name => exact keepHandle_orderly hplay hw name hspare

/-- After a fault the references without a name yet are released. -/
theorem keepHandles_orderly (hplay : play.Fair) (stem : String) (i : Nat)
    {es : List (Key Endpoint)} (hw : w.Ready hands) (hspare : ∀ e, es.count e ≤ w.state.spare e) :
    Orderly hands Fault.Raised (Item.references es) (fun _ => []) (keepHandles play stem i es)
      w := by
  induction es generalizing w i with
  | nil => exact orderly_pure w rfl
  | cons e rest ih =>
      have hfirst : 0 < w.state.spare e := by
        have he := hspare e
        rw [List.count_cons_self] at he
        omega
      unfold Orderly keepHandles
      rw [ensures_bind, ensures_onFault]
      apply Ensures.mono (keepHandle_orderly hplay hw _ hfirst)
      intro r w₁ hr
      have hready := hr.moves.ready hw
      have hspare₁ : ∀ x, rest.count x ≤ w₁.state.spare x := by
        intro x
        have hx := hspare x
        have hleft := hr.moves.spare x
        simp only [List.count_cons, List.count_nil, beq_iff_eq, Item.reference.injEq] at hx hleft
        omega
      have hboth : ∀ w₂, Moves hands (Item.references rest) [] w₁ w₂ →
          Moves hands (Item.references (e :: rest)) [] w w₂ := fun w₂ h => hr.moves.trans h
      cases r with
      | ok _ =>
          apply Ensures.mono (ih (i + 1) hready hspare₁)
          intro r' w₂ hr'
          exact .of_moves (hboth w₂ hr'.moves) hr'.allowed
      | error fault =>
          apply Ensures.mono (Endpoint.releaseAll_orderly hplay hready hspare₁)
          intro r' w₂ hr'
          exact ⟨hboth w₂ hr'.moves, hr.2⟩

/-! ## Uses of handles -/

theorem afloat_lend {handle : Handle} (hhandle : handle ∈ w.state.directory.handles.values)
    (i : Item) :
    (w.alter (·.setDirectory fun d => { d with loans := handle :: d.loans })).afloat i =
      w.afloat i := by
  have hspare : ∀ e, (w.state.setDirectory fun d =>
      { d with loans := handle :: d.loans }).spare e = w.state.spare e := by
    intro e
    simp only [State.spare, State.stranded_lend hhandle]
    rfl
  simp only [World.afloat, World.begun_alter, World.closed_alter, World.alter_state]
  cases i with
  | reference e =>
      simp only [State.spareOf, hspare]
      rfl
  | handler b n | data b n => rfl

theorem afloat_unlend (hw : w.state.Sound) {handle : Handle}
    (hhandle : handle ∈ w.state.directory.loans) (i : Item) :
    (w.alter (·.setDirectory fun d => { d with loans := d.loans.erase handle })).afloat i =
      w.afloat i +
        if handle ∉ w.state.directory.loans.erase handle ∧
            handle ∉ w.state.directory.handles.values then
          ([Item.reference handle.endpoint].count i : Int)
        else 0 := by
  simp only [World.afloat, World.begun_alter, World.closed_alter, World.alter_state]
  cases i with
  | reference e =>
      have hspare := State.spare_unlend hw hhandle e
      simp only [State.spareOf, hspare, State.attached, List.count_singleton, beq_iff_eq,
        Item.reference.injEq]
      split
      · simp
        omega
      · simp
  | handler b n | data b n =>
      simp only [State.spareOf, State.attached, List.count_singleton, beq_iff_eq, reduceCtorEq,
        if_false, State.setDirectory]
      split <;> simp

/-- A handle that loses its name while it is used goes away with its last use. -/
theorem lending_orderly {P : Fault → Prop} (hplay : play.Fair) (hw : w.Ready hands)
    {handle : Handle} (hhandle : handle ∈ w.state.directory.handles.values) {m : Run Result}
    (hP : ∀ fault, fault.Raised → P fault)
    (hm : ∀ w', w'.Ready hands → handle ∈ w'.state.directory.loans →
      Orderly hands P [] (fun _ => []) m w') :
    Orderly hands P [] (fun _ => []) (lending play handle m) w := by
  have hlend : Changes hands w
      (w.alter (·.setDirectory fun d => { d with loans := handle :: d.loans })) :=
    .single (.lend hhandle)
  unfold Orderly lending
  simp only [ensures_bind, ensures_modifyDirectory, then_ok, ensures_ensuring]
  apply Ensures.mono (hm _ (hlend.ready hw) List.mem_cons_self)
  intro r w₁ hr
  have hused := hr.moves
  have hloans : w₁.state.directory.loans = handle :: w.state.directory.loans := hused.loans
  have hready₁ := hused.changes.ready (hlend.ready hw)
  have hloan : handle ∈ w₁.state.directory.loans := by
    rw [hloans]
    exact List.mem_cons_self
  have hunlend : Changes hands w₁
      (w₁.alter (·.setDirectory fun d => { d with loans := d.loans.erase handle })) :=
    .single (.unlend hloan)
  have hready₂ := hunlend.ready hready₁
  simp only [ensures_getState, then_ok]
  have hback : (w₁.alter (·.setDirectory fun d =>
      { d with loans := d.loans.erase handle })).state.directory.loans =
        w.state.directory.loans := by
    simp [State.setDirectory, hloans]
  have hchanges := (hlend.trans hused.changes).trans hunlend
  have hbalance : ∀ i, ¬ w₁.TakenOut i →
      (w₁.alter (·.setDirectory fun d => { d with loans := d.loans.erase handle })).afloat i =
        w.afloat i +
          if handle ∉ w.state.directory.loans ∧ handle ∉ w₁.state.directory.handles.values then
            ([Item.reference handle.endpoint].count i : Int)
          else 0 := by
    intro i hi
    have hmeanwhile := hused.balance i hi
    have hlent := afloat_lend hhandle i
    have hunlent := afloat_unlend hready₁.sound hloan i
    rw [hloans, List.erase_cons_head] at hunlent
    simp only [List.count_nil] at hmeanwhile
    omega
  split
  · next hkept =>
      have hnothing : ¬ (handle ∉ w.state.directory.loans ∧
          handle ∉ w₁.state.directory.handles.values) := by
        rw [← hback]
        rintro ⟨hnotLoan, hnotNamed⟩
        exact hkept.elim hnotLoan hnotNamed
      have hmoves : Moves hands [] [] w
          (w₁.alter (·.setDirectory fun d => { d with loans := d.loans.erase handle })) := by
        refine ⟨hchanges, hback, fun i hi => ?_⟩
        have hi := hbalance i hi
        rw [if_neg hnothing] at hi
        simp only [List.count_nil]
        omega
      cases r with
      | ok a => exact hmoves
      | error fault => exact ⟨hmoves, hr.2⟩
  · next hgone =>
      have hlast : handle ∉ w.state.directory.loans ∧
          handle ∉ w₁.state.directory.handles.values := by
        rw [← hback]
        exact ⟨fun h => hgone (.inl h), fun h => hgone (.inr h)⟩
      have hmoves : Moves hands [] [.reference handle.endpoint] w
          (w₁.alter (·.setDirectory fun d => { d with loans := d.loans.erase handle })) := by
        refine ⟨hchanges, hback, fun i hi => ?_⟩
        have hi := hbalance i hi
        rw [if_pos hlast] at hi
        simp only [List.count_nil]
        omega
      apply Ensures.mono (Endpoint.release_orderly hplay hready₂ hmoves.spare_pos)
      intro r' w₂ hr'
      have hboth : Moves hands [] [] w w₂ := hmoves.cancel hr'.moves
      cases r with
      | error fault =>
          rw [settled_error]
          exact ⟨hboth, hr.2⟩
      | ok a =>
          cases r' with
          | ok _ => exact hboth
          | error fault => exact ⟨hboth, hP _ hr'.2⟩

/-! ## Batches -/

/-- What has a name is in nobody's hands. -/
theorem mayEnd_of_named (hw : w.Ready hands) {b : Key Batch}
    (hb : b ∈ w.state.directory.batches.values) :
    hands.MayEnd b := by
  by_contra hmay
  exact (hw.loose b hmay).2 hb

theorem index_lt_of_named (hw : w.Ready hands) {b : Key Batch}
    (hb : b ∈ w.state.directory.batches.values) :
    b.index < w.state.batches.size := by
  obtain ⟨e, he⟩ := Option.isSome_iff_exists.mp (hw.sound.batchesLive b hb)
  exact State.index_lt_of_endpoint he

/-- A batch that has lost its name belongs to whoever took it. -/
theorem own_of_erased (hw : w.Ready hands) {name : String} {b : Key Batch}
    (hfind : w.state.directory.batches.find? name = some b) {f : Directory → Directory}
    (hvalues : ∀ b', b' ∈ (f w.state.directory).batches.values →
      b' ∈ (w.state.directory.batches.erase name).values ∨ b' ≠ b) :
    Batch.Own hands b (w.alter (·.setDirectory f)) := by
  have hb := Names.mem_values_of_find? hfind
  refine ⟨mayEnd_of_named hw hb, ⟨index_lt_of_named hw hb, fun hmem => ?_⟩,
    hw.sound.batchesLive b hb⟩
  rcases hvalues b hmem with h | h
  · exact Names.not_mem_erase_of_find? hw.sound.batchesNodup hfind h
  · exact h rfl

theorem ensures_takeBatch (hw : w.Ready hands) (name : String) :
    Ensures (takeBatch name) w fun r w' =>
      ∃ answer : Except Mistake (Key Batch), r = .ok answer ∧
        Batch.Supplied hands w answer.toOption w' := by
  unfold takeBatch
  simp only [ensures_bind, ensures_getState, then_ok]
  split
  · exact ⟨_, rfl, .refl hands w, by simp [Except.toOption]⟩
  · next b hfind =>
      simp only [ensures_bind, ensures_modifyDirectory, then_ok, ensures_pure]
      refine ⟨_, rfl, .unnameBatch hfind, fun b' hb' => ?_⟩
      obtain rfl := Option.some.inj hb'
      exact own_of_erased hw hfind fun b' h => .inl h

theorem ensures_takeBatch_of_named {name : String} {b : Key Batch}
    (hfind : w.state.directory.batches.find? name = some b)
    (Q : Except Fault (Except Mistake (Key Batch)) → World → Prop) :
    Ensures (takeBatch name) w Q ↔
      Q (.ok (.ok b))
        (w.alter (·.setDirectory fun d => { d with batches := d.batches.erase name })) := by
  unfold takeBatch
  simp only [ensures_bind, ensures_getState, then_ok, hfind, ensures_modifyDirectory,
    ensures_pure]

/-- The batch that a name stood for is dropped when the name is given to another one. -/
theorem keepBatch_orderly (hplay : play.Fair) (hw : w.Ready hands) (name : String)
    {b : Key Batch} (hown : Batch.Own hands b w) :
    Orderly hands Fault.Raised [] (fun _ => []) (keepBatch play name b) w := by
  have hname : Moves hands [] [] w
      (w.alter (·.setDirectory fun d => { d with batches := d.batches.insert name b })) :=
    .nameBatch name hown.mayEnd hown.loose.1 hown.loose.2 hown.endpoint
  unfold Orderly keepBatch
  simp only [ensures_bind, ensures_getState, then_ok, ensures_modifyDirectory]
  split
  · exact hname
  · next replaced hfind =>
      have hreplaced : Batch.Own hands replaced
          (w.alter (·.setDirectory fun d => { d with batches := d.batches.insert name b })) := by
        refine own_of_erased hw hfind fun b' hb' => ?_
        rcases List.mem_cons.mp ((Names.values_insert_perm _ _ _).mem_iff.mp hb') with rfl | h
        · refine .inr fun heq => hown.loose.2 ?_
          rw [heq]
          exact Names.mem_values_of_find? hfind
        · exact .inl h
      exact (hreplaced.drop_orderly hplay (hname.ready hw)).after hname

/-- The batch that a name stands for, in a script with a batch at hand. -/
def meant? (s : State) (atHand : Option (Key Batch)) (name : String) : Option (Key Batch) :=
  (if name = atHandName then atHand else none).or (s.directory.batches.find? name)

/-- A batch is used by its name or, as the batch at hand, without one.  Whatever is done with it
neither ends nor names it. -/
theorem onBatch_orderly (hplay : play.Fair) (hw : w.Ready hands) {atHand : Option (Key Batch)}
    (hatHand : ∀ b, atHand = some b → hands.Lent b) (name : String) {P : Fault → Prop}
    (hP : ∀ fault, fault.Raised → P fault) {act : Key Batch → Run Result}
    (hact : ∀ (others : Hands) (b : Key Batch) (w' : World), w'.Ready others → others.Lent b →
      meant? w.state atHand name = some b → w'.state.batches = w.state.batches →
        Orderly others P [] (fun _ => []) (act b) w') :
    Orderly hands P [] (fun _ => []) (onBatch play atHand name act) w := by
  unfold onBatch
  split
  · next b hb =>
      have hmeant : meant? w.state atHand name = some b := by rw [meant?, hb, Option.some_or]
      split at hb
      · exact hact hands b w hw (hatHand b hb) hmeant rfl
      · cases hb
  · next hnone =>
      unfold Orderly
      simp only [ensures_bind]
      cases hfind : w.state.directory.batches.find? name with
      | none =>
          simp only [takeBatch, ensures_bind, ensures_getState, then_ok, hfind, ensures_pure]
          exact .refl hands w
      | some b =>
          have hmeant : meant? w.state atHand name = some b := by
            rw [meant?, hnone, Option.none_or, hfind]
          have hmoves : Moves hands [] [] w _ := .unnameBatch hfind
          have hready := hmoves.ready hw
          have hown : Batch.Own hands b (w.alter (·.setDirectory fun d =>
              { d with batches := d.batches.erase name })) :=
            own_of_erased hw hfind fun b' h => .inl h
          rw [ensures_takeBatch_of_named hfind, then_ok, ensures_ensuring]
          apply Ensures.mono (hact (hands.lend b) b _ (hready.lend hown.loose)
            hown.mayEnd.mayTouch.lent hmeant rfl)
          intro r w₂ hr
          have hused := hmoves.trans (hr.moves.within (hands.within_lend b))
          apply Ensures.mono (keepBatch_orderly hplay (hused.ready hw) name (hown.lent hr.moves))
          intro r' w₃ hr'
          exact .of_moves (hused.trans hr'.moves)
            (hr.allowed.settled (hr'.weaken hands.within_refl hP).allowed)

end Session
end UsbTransfer
