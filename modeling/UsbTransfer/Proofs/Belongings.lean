import UsbTransfer.Belongings
import UsbTransfer.Proofs.Operations

/-!
# Operations on what a batch owns

While the handler or the value of a batch is destroyed, and while the handler does its work, the
batch is held: whatever user code does then happens aside of it.
-/

namespace UsbTransfer

open Run

/-- What happens aside of a batch leaves it as it was. -/
theorem Moves.aside {hands : Hands} {give take : List Item} {w w' : World} {b : Key Batch}
    (h : Moves (hands.hold b) give take w w') (hloose : w.Loose b) :
    w'.state.batches.get b = w.state.batches.get b ∧ w'.Loose b := by
  have hheld : ¬ (hands.hold b).MayTouch b := by simp
  exact ⟨h.changes.batch_eq hheld hloose,
    h.changes.loose (fun hmay => hheld hmay.mayTouch) hloose⟩

/-- The occurrence that a handler was destroyed. -/
def Handler.destroyed (b : Key Batch) (h : Handler) : Occurrence :=
  .handlerDestroyed b h.serial (if h.noisy then h.name? else none)

/-- The occurrence that a value was destroyed. -/
def Attachment.destroyed (b : Key Batch) (a : Attachment) : Occurrence :=
  .dataDestroyed b a.serial a.value.lastWords?

/-- What a batch owns besides its endpoint. -/
inductive Belonging where
  | handler (h : Handler)
  | data (a : Attachment)

namespace Belonging

/-- A batch has the belonging. -/
def OwnedBy (b : Key Batch) (s : State) : Belonging → Prop
  | .handler h => (s.batches.get b).handler = some h
  | .data a => (s.batches.get b).data = some a

/-- What the belonging counts as. -/
def item (b : Key Batch) : Belonging → Item
  | .handler h => .handler b h.serial
  | .data a => .data b a.serial

/-- The references that went with the belonging. -/
def captured : Belonging → List (Key Endpoint)
  | .handler h => h.captured
  | .data a => a.value.captured

/-- The belonging leaves its batch, and its references are in flight then. -/
def detach (b : Key Batch) (x : Belonging) (s : State) : State :=
  match x with
  | .handler _ => s.detachHandler b
  | .data _ => s.detachData b

/-- A batch without the belonging. -/
def without (batch : Batch) : Belonging → Batch
  | .handler _ => { batch with handler := none }
  | .data _ => { batch with data := none }

/-- The occurrence that the belonging was destroyed. -/
def destroyed (b : Key Batch) : Belonging → Occurrence
  | .handler h => h.destroyed b
  | .data a => a.destroyed b

/-- Destroys the belonging, which left its batch. -/
def destroy (play : Player) (b : Key Batch) : Belonging → Run Unit
  | .handler h => h.destroy play b
  | .data a => a.destroy play b

variable {play : Player} {hands : Hands} {w : World} {b : Key Batch}

theorem get_detach (x : Belonging) (hloose : w.Loose b) :
    (x.detach b w.state).batches.get b = x.without (w.state.batches.get b) := by
  cases x with
  | handler h | data a => exact Arena.get_modify_self _ _ _ hloose.1

theorem loose_detach (x : Belonging) (hloose : w.Loose b) :
    (w.alter (x.detach b)).Loose b := by
  cases x with
  | handler h => exact hloose.alter (by simp [detach, State.detachHandler]) rfl
  | data a => exact hloose.alter (by simp [detach, State.detachData]) rfl

/-- What leaves a batch takes its references along. -/
theorem detach_moves {x : Belonging} (hx : x.OwnedBy b w.state) (hw : w.state.Sound)
    (hb : hands.MayTouch b) :
    Moves hands [] (x.item b :: Item.references x.captured) w (w.alter (x.detach b)) := by
  cases x with
  | handler h => exact .detachHandler hw hb hx
  | data a => exact .detachData hw hb hx

/-- The references of what left a batch are spare, and so is whatever was spare before. -/
theorem spare_detach {x : Belonging} (hx : x.OwnedBy b w.state) (hw : w.state.Sound)
    (hb : hands.MayTouch b) (e : Key Endpoint) :
    (w.alter (x.detach b)).state.spare e = w.state.spare e + x.captured.count e := by
  have hspare := (x.detach_moves hx hw hb).spare e
  have hitem : x.item b ≠ .reference e := by
    cases x with
    | handler h | data a => exact Item.noConfusion
  simp only [List.count_nil, List.count_cons_of_ne hitem, Item.count_reference_references]
    at hspare
  omega

/-- A belonging that is destroyed loses its references first, and others work aside of the batch
meanwhile. -/
theorem ensures_destroy_losing (hplay : play.Fair) (hw : w.Ready hands) (hloose : w.Loose b)
    (x : Belonging) (hspare : ∀ e, x.captured.count e ≤ w.state.spare e) :
    Ensures (x.destroy play b) w fun r w' =>
      ∃ w₁, w.LosesAll (hands.hold b) x.captured w₁ ∧ w' = w₁.note (x.destroyed b) ∧
        Allowed Fault.Raised r := by
  have hdestroy : x.destroy play b =
      ensuring (Endpoint.releaseAll play x.captured) (record (x.destroyed b)) := by
    cases x with
    | handler h | data a => rfl
  rw [hdestroy, ensures_ensuring]
  apply Ensures.mono (Endpoint.ensures_releaseAll hplay (hw.hold hloose) hspare)
  rintro r w₁ ⟨hloses, hallowed⟩
  rw [ensures_record]
  exact ⟨w₁, hloses, rfl, hallowed.settled trivial⟩

/-- While the belonging is destroyed others work aside of the batch. -/
theorem ensures_destroy (hplay : play.Fair) (hw : w.Ready hands) (hloose : w.Loose b)
    (x : Belonging) (hspare : ∀ e, x.captured.count e ≤ w.state.spare e) :
    Ensures (x.destroy play b) w fun r w' =>
      ∃ w₁, Moves (hands.hold b) (Item.references x.captured) [] w w₁ ∧
        w' = w₁.note (x.destroyed b) ∧ Allowed Fault.Raised r := by
  apply Ensures.mono (ensures_destroy_losing hplay hw hloose x hspare)
  rintro r w' ⟨w₁, hloses, rfl, hallowed⟩
  exact ⟨w₁, hloses.moves hspare, rfl, hallowed⟩

/-- The end of a belonging settles it. -/
theorem destroyed_moves (x : Belonging) (hb : hands.MayTouch b) :
    Moves hands [x.item b] [] w (w.note (x.destroyed b)) := by
  cases x with
  | handler h => exact .noteOf (o := h.destroyed b) trivial rfl hb (.inl rfl)
  | data a => exact .noteOf (o := a.destroyed b) trivial rfl hb (.inl rfl)

theorem destroy_orderly (hplay : play.Fair) (hw : w.Ready hands) (hb : hands.MayTouch b)
    (hloose : w.Loose b) (x : Belonging)
    (hspare : ∀ e, x.captured.count e ≤ w.state.spare e) :
    Orderly hands Fault.Raised (x.item b :: Item.references x.captured) (fun _ => [])
      (x.destroy play b) w := by
  apply Ensures.mono (ensures_destroy hplay hw hloose x hspare)
  intro r w' hr
  obtain ⟨w₁, hmoves, rfl, hallowed⟩ := hr
  have hboth := (hmoves.within (hands.within_hold b)).trans (x.destroyed_moves hb)
  refine .of_moves (hboth.settle fun i => ?_) hallowed
  simp only [List.count_append, List.count_cons, List.count_nil]
  omega

/-- When something has taken the place of a belonging, the references of the latter are spare. -/
theorem ready_of_replaced {x : Belonging} {captured : List (Key Endpoint)} {w' : World}
    (hw : w.Ready hands) (hb : hands.MayTouch b) (hx : x.OwnedBy b w.state)
    (hspare : ∀ e, captured.count e ≤ w.state.spare e)
    (hattach : (∀ e, captured.count e ≤ (w.alter (x.detach b)).state.spare e) →
      Moves hands (Item.references captured) [] (w.alter (x.detach b)) w') :
    Moves hands (Item.references captured) (x.item b :: Item.references x.captured) w w' ∧
      ∀ e, x.captured.count e ≤ w'.state.spare e := by
  have hdetach := x.detach_moves hx hw.sound hb
  have hdetached := spare_detach hx hw.sound hb
  have hattached := hattach fun e => by
    have he := hspare e
    have hspared := hdetached e
    omega
  refine ⟨(hdetach.trans hattached).settle fun i => ?_, fun e => ?_⟩
  · simp only [List.count_append, List.count_nil]
    omega
  · have he := hspare e
    have hspared := hdetached e
    have hlater := hattached.spare e
    simp only [List.count_nil, Item.count_reference_references] at hlater
    omega

/-- Something takes the place of a belonging, which is destroyed then. -/
theorem replace_orderly {x : Belonging} {captured : List (Key Endpoint)} {w' : World}
    (hplay : play.Fair) (hw : w.Ready hands) (hb : hands.Lent b) (hx : x.OwnedBy b w.state)
    (hspare : ∀ e, captured.count e ≤ w.state.spare e)
    (hattach : (∀ e, captured.count e ≤ (w.alter (x.detach b)).state.spare e) →
      Moves hands (Item.references captured) [] (w.alter (x.detach b)) w') :
    Ensures (x.destroy play b) w'
      (Account hands Fault.Raised (Item.references captured) (fun _ => []) w) := by
  obtain ⟨hmoves, hspare'⟩ := ready_of_replaced hw hb.1 hx hspare hattach
  have hready := hmoves.ready hw
  exact Orderly.after hmoves
    (x.destroy_orderly hplay hready hb.1 (hready.loose_of_lent hb) hspare')

end Belonging

namespace Handler

variable {play : Player} {hands : Hands} {w : World} {b : Key Batch}

/-- A handler works aside of its batch, and is destroyed after that. -/
theorem ensures_invoke (hplay : play.Fair) (hw : w.Ready hands) (hloose : w.Loose b)
    (h : Handler) (c : Completion) (hspare : ∀ e, h.captured.count e ≤ w.state.spare e)
    (hforwards : w.state.Forwards h.action) :
    Ensures (h.invoke play b c) w fun r w' =>
      ∃ w₁, Moves (hands.hold b) (Item.references h.captured) []
          (w.note (.handlerInvoked b h.serial h.name? c)) w₁ ∧
        w' = w₁.note (h.destroyed b) ∧ Allowed Fault.Raised r := by
  unfold invoke
  simp only [ensures_bind, ensures_record, then_ok]
  rw [ensures_ensuring]
  have hnoted : (w.note (.handlerInvoked b h.serial h.name? c)).Ready (hands.hold b) :=
    (hw.hold hloose).note _
  -- What a handler does is up to its action, and either way it works on the world as it found it.
  refine Ensures.mono (Q := Account (hands.hold b) Fault.Raised [] (fun _ => [])
    (w.note (.handlerInvoked b h.serial h.name? c))) ?_ fun r w₁ hr => ?_
  · cases haction : h.action with
    | run name code reply =>
        exact (hplay.run_none hnoted code).bind fun _ w' hmoves => orderly_pure w' rfl
    | forward q =>
        exact (Queue.push_orderly hplay hnoted (hforwards q haction) c).bind
          fun _ w' hmoves => orderly_pure w' rfl
  have hready := (hr.moves.ready hnoted).within (hands.within_hold b)
  have hspare' : ∀ e, h.captured.count e ≤ w₁.state.spare e := by
    intro e
    have hkept := hr.moves.spare e
    have he := hspare e
    simp only [List.count_nil, World.note_state] at hkept
    omega
  apply Ensures.mono (Belonging.ensures_destroy hplay hready (hr.moves.aside hloose).2
    (.handler h) hspare')
  intro r' w₂ hr'
  obtain ⟨w₂, hmoves, rfl, hallowed⟩ := hr'
  exact ⟨w₂, hr.moves.trans hmoves, rfl, hr.allowed.settled hallowed⟩

end Handler

namespace Batch

variable {play : Player} {hands : Hands} {w w' : World} {b : Key Batch}

@[simp]
theorem ensures_modifyTransfer (b : Key Batch) (f : Transfer → Transfer) (w : World)
    (Q : Except Fault Unit → World → Prop) :
    Ensures (modifyTransfer b f) w Q ↔
      Q (.ok ()) (w.alter (·.setTransfer b (f (w.state.transferOf b)))) := by
  have hstate : { w.state with
        batches := w.state.batches.modify b fun batch =>
          { batch with transfer := f batch.transfer } } =
      w.state.setTransfer b (f (w.state.transferOf b)) := by
    unfold State.setTransfer
    rw [w.state.batches.modify_congr b _
      (fun batch => { batch with transfer := f (w.state.transferOf b) }) rfl]
  unfold modifyTransfer modify
  rw [ensures_modifyState]
  simp only [World.alter, hstate]

@[simp]
theorem ensures_takeHandler? (b : Key Batch) (w : World)
    (Q : Except Fault (Option Handler) → World → Prop) :
    Ensures (takeHandler? b) w Q ↔
      match (w.state.batches.get b).handler with
      | none => Q (.ok none) w
      | some h => Q (.ok (some h)) (w.alter (·.detachHandler b)) := by
  unfold takeHandler?
  rw [ensures_bind, ensures_getState, then_ok]
  cases (w.state.batches.get b).handler <;> rfl

@[simp]
theorem ensures_takeData? (b : Key Batch) (w : World)
    (Q : Except Fault (Option Attachment) → World → Prop) :
    Ensures (takeData? b) w Q ↔
      match (w.state.batches.get b).data with
      | none => Q (.ok none) w
      | some a => Q (.ok (some a)) (w.alter (·.detachData b)) := by
  unfold takeData?
  rw [ensures_bind, ensures_getState, then_ok]
  cases (w.state.batches.get b).data <;> rfl

/-- A batch gets a handler, and the one that it had is destroyed. -/
theorem attachHandler_orderly (hplay : play.Fair) (hw : w.Ready hands) (hb : hands.Lent b)
    {action : HandlerAction} {captured : List (Key Endpoint)} {noisy : Bool}
    (hspare : ∀ e, captured.count e ≤ w.state.spare e) (hforwards : w.state.Forwards action) :
    Orderly hands Fault.Raised (Item.references captured) (fun _ => [])
      (attachHandler play b action captured noisy) w := by
  have hloose := hw.loose_of_lent hb
  unfold Orderly attachHandler
  simp only [ensures_bind, ensures_takeHandler?]
  cases hhandler : (w.state.batches.get b).handler with
  | none =>
      simp only [then_ok, ensures_bind, ensures_getState, ensures_modifyState, ensures_record]
      exact .attachHandler hb.1 hloose.1 hhandler hspare hforwards
  | some replaced =>
      have hgone := Belonging.get_detach (.handler replaced) hloose
      have hloose' := Belonging.loose_detach (.handler replaced) hloose
      simp only [then_ok, ensures_bind, ensures_getState, ensures_modifyState, ensures_record]
      exact Belonging.replace_orderly (x := .handler replaced) hplay hw hb hhandler hspare
        fun hroom => .attachHandler hb.1 hloose'.1 (congrArg Batch.handler hgone) hroom hforwards

/-- A batch gets a value, and the one that it had is destroyed. -/
theorem attachData_orderly (hplay : play.Fair) (hw : w.Ready hands) (hb : hands.Lent b)
    {value : DataValue} (hspare : ∀ e, value.captured.count e ≤ w.state.spare e) :
    Orderly hands Fault.Raised (Item.references value.captured) (fun _ => [])
      (attachData play b value) w := by
  have hloose := hw.loose_of_lent hb
  unfold Orderly attachData
  simp only [ensures_bind, ensures_takeData?]
  cases hdata : (w.state.batches.get b).data with
  | none =>
      simp only [then_ok, ensures_bind, ensures_getState, ensures_modifyState, ensures_record]
      exact .attachData hb.1 hloose.1 hdata hspare
  | some replaced =>
      have hgone := Belonging.get_detach (.data replaced) hloose
      have hloose' := Belonging.loose_detach (.data replaced) hloose
      simp only [then_ok, ensures_bind, ensures_getState, ensures_modifyState, ensures_record]
      exact Belonging.replace_orderly (x := .data replaced) hplay hw hb hdata hspare
        fun hroom => .attachData hb.1 hloose'.1 (congrArg Batch.data hgone) hroom

/-- A value that is taken out is no longer accounted for, but its references are. -/
theorem ensures_takeDataOf? (hw : w.Ready hands) (hb : hands.Lent b) (type : DataType) :
    Ensures (takeDataOf? b type) w fun r w' =>
      ∃ taken : Option Attachment, r = .ok taken ∧
        Moves hands [] (Item.references ((taken.map (·.value.captured)).getD [])) w w' ∧
          ∀ a, taken = some a → w'.TakenOut (.data b a.serial) := by
  unfold takeDataOf?
  simp only [ensures_bind, ensures_getState, then_ok]
  split
  · exact ⟨none, rfl, .refl hands w, by simp⟩
  · next a hdata =>
      split
      · have hdetach : Moves hands [] (.data b a.serial :: Item.references a.value.captured) w
            (w.alter (·.detachData b)) :=
          .detachData hw.sound hb.1 hdata
        have hgone : ((w.alter (·.detachData b)).state.batches.get b).data = none :=
          congrArg Batch.data (Belonging.get_detach (.data a) (hw.loose_of_lent hb))
        have htaken : Moves hands [.data b a.serial] [] (w.alter (·.detachData b))
            ((w.alter (·.detachData b)).note (.dataTaken b a.serial)) :=
          .noteOf (o := .dataTaken b a.serial)
            ⟨hgone, (hw.sound.itemsOld b).2 a hdata⟩ rfl hb.1 (.inl rfl)
        simp only [ensures_bind, ensures_takeData?, hdata, then_ok, ensures_record,
          ensures_pure]
        refine ⟨some a, rfl, (hdetach.trans htaken).settle fun i => ?_, fun a' h => ?_⟩
        · simp only [List.count_append, List.count_cons, List.count_nil, Option.map_some,
            Option.getD_some]
          omega
        · obtain rfl := Option.some.inj h
          exact ⟨_, List.mem_cons_self, rfl⟩
      · exact ⟨none, rfl, .refl hands w, by simp⟩

end Batch

end UsbTransfer
