import UsbTransfer.Proofs.Completions
import UsbTransfer.Proofs.LifecycleSteps

/-!
# Values as cells

A batch has room for one value, and the room is a typed cell.  Whoever puts a value there replaces
the one that was there, and a value is changed or taken only as what it is.  So the value of a batch
is read off what was done with it: it is the one that was put there last, with all the changes that
were made since, unless it was taken.
-/

namespace UsbTransfer

open Run

/-! ## What is done with a value -/

/-- The type of the values that can be changed so. -/
def DataChange.type : DataChange → DataType
  | .add _ => .number
  | .append _ => .text

namespace DataValue

/-- The value after a change, which leaves values of other types alone. -/
def changed (v : DataValue) (change : DataChange) : DataValue :=
  (v.change? change).getD v

variable {v v' : DataValue} {change : DataChange}

/-- A change leaves a value what it is. -/
theorem type_change? (h : v.change? change = some v') : v'.type = v.type := by
  cases change <;> cases v <;> simp only [change?, Option.some.injEq, reduceCtorEq] at h <;>
    rw [← h] <;> rfl

theorem type_changed (v : DataValue) (change : DataChange) : (v.changed change).type = v.type := by
  unfold changed
  cases h : v.change? change with
  | none => rfl
  | some v' => exact type_change? h

/-- The value after changes, of which the latest comes first. -/
def changedBy (changes : List DataChange) (v : DataValue) : DataValue :=
  changes.foldr (fun change v => v.changed change) v

theorem type_changedBy (changes : List DataChange) (v : DataValue) :
    (v.changedBy changes).type = v.type := by
  induction changes with
  | nil => rfl
  | cons change earlier ih => exact (type_changed _ change).trans ih

end DataValue

/-- What can be done with the cell of a batch. -/
inductive CellOp where
  | set (value : DataValue)
  | change (change : DataChange)
  | take (type : DataType)
deriving DecidableEq

namespace CellOp

/-- What becomes of the contents of the cell. -/
def apply : CellOp → Option DataValue → Option DataValue
  | set value, _ => some value
  | change c, contents => contents.map (·.changed c)
  | take type, contents => contents.filter (·.type ≠ type)

/-- The contents of the cell.  What was done is listed from the latest to the first. -/
def contents (ops : List CellOp) : Option DataValue :=
  ops.foldr apply none

/-- A value of the type stays in the cell. -/
def Spares (type : DataType) : CellOp → Prop
  | set _ => False
  | change _ => True
  | take type' => type' ≠ type

/-- The changes that were made. -/
def changes (ops : List CellOp) : List DataChange :=
  ops.filterMap fun
    | change c => some c
    | _ => none

variable {ops later : List CellOp} {v v₀ : DataValue}

@[simp]
theorem contents_cons (op : CellOp) (ops : List CellOp) :
    contents (op :: ops) = op.apply (contents ops) :=
  rfl

/-- A value that nobody took or replaced is there with the changes that were made. -/
theorem contents_of_spared (hlater : ∀ op ∈ later, op.Spares v₀.type) :
    contents (later ++ set v₀ :: ops) = some (v₀.changedBy (changes later)) := by
  induction later with
  | nil => rfl
  | cons op later ih =>
      obtain ⟨hop, hlater⟩ := List.forall_mem_cons.mp hlater
      rw [List.cons_append, contents_cons, ih hlater]
      cases op with
      | set => exact hop.elim
      | change c => rfl
      | take type =>
          have hother : ¬ v₀.type = type := Ne.symm hop
          have hkept : (some (v₀.changedBy (changes later))).filter (·.type ≠ type) =
              some (v₀.changedBy (changes later)) := by
            simp [DataValue.type_changedBy, hother]
          exact hkept

/-- The contents are the value that was set last and not taken since, with exactly the changes that
were made to it since. -/
theorem contents_eq_some_iff :
    contents ops = some v ↔
      ∃ later v₀ earlier, ops = later ++ set v₀ :: earlier ∧
        (∀ op ∈ later, op.Spares v₀.type) ∧ v = v₀.changedBy (changes later) := by
  constructor
  case mpr =>
    rintro ⟨later, v₀, earlier, rfl, hlater, rfl⟩
    exact contents_of_spared hlater
  case mp =>
    intro h
    induction ops generalizing v with
    | nil => cases h
    | cons op ops ih =>
        rw [contents_cons] at h
        cases op with
        | set value =>
            obtain rfl := Option.some.inj h
            exact ⟨[], value, ops, rfl, by simp, rfl⟩
        | change c =>
            obtain ⟨v', hv', rfl⟩ := Option.map_eq_some_iff.mp h
            obtain ⟨later, v₀, earlier, rfl, hlater, rfl⟩ := ih hv'
            exact ⟨change c :: later, v₀, earlier, rfl,
              List.forall_mem_cons.mpr ⟨trivial, hlater⟩, rfl⟩
        | take type =>
            obtain ⟨hv, htype⟩ := Option.filter_eq_some_iff.mp h
            obtain ⟨later, v₀, earlier, rfl, hlater, rfl⟩ := ih hv
            have hother : type ≠ v₀.type := by
              rw [← DataValue.type_changedBy (changes later) v₀]
              exact Ne.symm (of_decide_eq_true htype)
            exact ⟨take type :: later, v₀, earlier, rfl,
              List.forall_mem_cons.mpr ⟨hother, hlater⟩, rfl⟩

end CellOp

/-! ## Uses of the cell -/

/-- The value that is attached to a batch. -/
def State.valueOf (s : State) (b : Key Batch) : Option DataValue :=
  (s.batches.get b).data.map (·.value)

/-- The value that is meant, unless it is a handle that cannot be moved. -/
def DataSpec.value? (d : Directory) : DataSpec → Option DataValue
  | .number value => some (.number value)
  | .text value => some (.text value)
  | .noisy value => some (.noisy value)
  | .handle name =>
      match d.handles.find? name with
      | none => none
      | some h => if d.OnLoan h then none else some (.handle h.endpoint)

namespace Session

variable {play : Player} {hands : Hands} {w w' : World} {b : Key Batch}

/-- A value to attach is had if it can be had, and nothing else happens to batches. -/
theorem ensures_takeValue (spec : DataSpec) :
    Ensures (takeValue spec) w fun r w' =>
      ∃ answer : Except Mistake DataValue, r = .ok answer ∧
        answer.toOption = spec.value? w.state.directory ∧ w'.state.serial = w.state.serial ∧
          w'.state.batches = w.state.batches ∧ w'.history = w.history := by
  cases spec with
  | number | text | noisy => exact ⟨_, rfl, rfl, rfl, rfl, rfl⟩
  | handle name =>
      unfold takeValue takeHandle DataSpec.value?
      simp only [ensures_bind, ensures_getState, then_ok]
      cases w.state.directory.handles.find? name with
      | none => exact ⟨_, rfl, rfl, rfl, rfl, rfl⟩
      | some h =>
          by_cases hloan : w.state.directory.OnLoan h
          case pos =>
            simp only [if_pos hloan]
            exact ⟨_, rfl, rfl, rfl, rfl, rfl⟩
          case neg =>
            simp only [if_neg hloan, ensures_bind, ensures_modifyState, then_ok]
            exact ⟨_, rfl, rfl, rfl, rfl, rfl⟩

namespace Use

/-- What a use does with the cell, if it does anything with it. -/
def cellOp? (d : Directory) : Use → Option CellOp
  | setData spec => (spec.value? d).map .set
  | changeData c => some (.change c)
  | takeData type _ => some (.take type)
  | _ => none

theorem ensures_setData_value (hplay : play.Fair) (hw : w.Ready hands) (hb : hands.Lent b)
    (spec : DataSpec) :
    Ensures (Session.setData play b spec) w fun _ w' =>
      w'.state.valueOf b =
        ((setData spec).cellOp? w.state.directory).elim id CellOp.apply (w.state.valueOf b) := by
  unfold Session.setData
  rw [ensures_bind]
  apply Ensures.mono ((takeValue_orderly hw spec).and (ensures_takeValue spec))
  rintro r w₁ ⟨hmoves, answer, rfl, hvalue, -, hbatches, -⟩
  simp only [cellOp?, ← hvalue]
  rw [then_ok]
  cases answer with
  | error mistake =>
      change w₁.state.valueOf b = w.state.valueOf b
      rw [State.valueOf, hbatches, State.valueOf]
  | ok value =>
      refine ensures_answered (Ensures.mono (Batch.ensures_attachData hplay (hmoves.ready hw) hb
        (Moves.spare_taken hmoves)) fun _ _ hsame => ?_) _
      exact congrArg (fun batch => batch.data.map (·.value)) hsame

/-- A value of the right type is changed and told, and nothing else happens. -/
theorem ensures_changeData_value (hloose : w.Loose b) (c : DataChange) :
    Ensures (Session.changeData b c) w fun r w' =>
      r = .ok (.ok (((w.state.valueOf b).bind (·.change? c)).elim .nothing
        (dataAnswer w.state))) ∧
      w'.state.valueOf b = (w.state.valueOf b).map (·.changed c) ∧
      (((w.state.valueOf b).bind (·.change? c)) = none → w' = w) := by
  unfold Session.changeData State.valueOf
  simp only [ensures_bind, ensures_getState, then_ok]
  cases hdata : (w.state.batches.get b).data with
  | none => exact ⟨rfl, by simp [hdata], fun _ => rfl⟩
  | some a =>
      simp only [Option.map_some, Option.bind_some]
      cases hchange : a.value.change? c with
      | none => exact ⟨rfl, by simp [hdata, DataValue.changed, hchange], fun _ => rfl⟩
      | some value =>
          simp only [ensures_bind, Batch.modify, ensures_modifyState, then_ok, ensures_pure]
          refine ⟨rfl, ?_, fun h => by cases h⟩
          rw [World.alter_state, Arena.get_modify_self _ _ _ hloose.1]
          simp [DataValue.changed, hchange]

/-- A value is told if it has the right type, and nothing happens. -/
theorem ensures_getData_value (b : Key Batch) (type : DataType) :
    Ensures (Session.getData b type) w fun r w' =>
      r = .ok (.ok (((w.state.valueOf b).filter (·.type = type)).elim .nothing
        (dataAnswer w.state))) ∧ w' = w := by
  unfold Session.getData State.valueOf
  simp only [ensures_bind, ensures_getState, then_ok]
  cases hdata : (w.state.batches.get b).data with
  | none => exact ⟨rfl, rfl⟩
  | some a =>
      refine ⟨?_, rfl⟩
      by_cases htype : a.value.type = type
      case pos => simp [htype, Option.filter]
      case neg => simp [htype, Option.filter]

/-- Whatever user code does meanwhile and however the use ends, the cell has the contents that the
use gives it. -/
theorem ensures_run_value (hplay : play.Fair) (hw : w.Ready hands) (hb : hands.Lent b)
    (use : Use) :
    Ensures (use.run play b) w fun _ w' =>
      w'.state.valueOf b =
        (use.cellOp? w.state.directory).elim id CellOp.apply (w.state.valueOf b) := by
  have hloose := hw.loose_of_lent hb
  have haside : ∀ {m : Run Result}, (Ensures m w fun _ w' =>
      w'.state.batches.get b = w.state.batches.get b) →
        Ensures m w fun _ w' => w'.state.valueOf b = w.state.valueOf b :=
    fun hm => hm.mono fun _ _ hsame => congrArg (fun batch => batch.data.map (·.value)) hsame
  have hothers : ∀ {m : Run Result}, Obeys (hands.hold b) m w →
      Ensures m w fun _ w' => w'.state.valueOf b = w.state.valueOf b :=
    fun hm => haside (ensures_aside hloose hm)
  have hplain : ∀ {m : Run Result} {t : Transfer}, (Ensures m w fun _ w' =>
      w'.state.batches.get b = { w.state.batches.get b with transfer := t }) →
        Ensures m w fun _ w' => w'.state.valueOf b = w.state.valueOf b :=
    fun hm => hm.mono fun _ _ hsame =>
      (congrArg (fun batch => batch.data.map (·.value)) hsame).trans rfl
  have hgiven : ∀ {m : Run Result}, (Ensures m w fun _ w' => ∃ handler?,
      w'.state.batches.get b = { w.state.batches.get b with handler := handler? }) →
        Ensures m w fun _ w' => w'.state.valueOf b = w.state.valueOf b := by
    intro m hm
    apply Ensures.mono hm
    rintro _ w' ⟨handler?, hsame⟩
    exact (congrArg (fun batch => batch.data.map (·.value)) hsame).trans rfl
  cases use with
  | info => exact hothers (.refl _ w)
  | text style => exact hothers (batchText_obeys b style)
  | endpoint keep => exact hothers (batchEndpoint_obeys hplay (hw.hold hloose) b keep)
  | isOn handle => exact hothers (batchIsOn_obeys b handle)
  | getData type => exact hothers (getData_obeys b type)
  | setScope scope => exact hplain (ensures_changeTransfer hloose (·.setScope scope))
  | setBuffer data => exact hplain (ensures_changeTransfer hloose (·.setBuffer data))
  | complete status actual =>
      exact hplain (ensures_changeTransfer hloose (·.complete status actual))
  | setSetup setup => exact hplain (ensures_answered (ensures_edit hloose _) _)
  | schedule => exact hplain (ensures_answered (ensures_edit hloose _) _)
  | allocBuffer length granted => exact hplain (ensures_allocBuffer hloose length granted)
  | write start bytes => exact hplain (ensures_write hloose start bytes)
  | resetToggle => exact haside (ensures_resetToggle hplay hw hb)
  | onComplete handler => exact hgiven (ensures_onComplete hplay hw hb handler)
  | toQueue queue => exact hgiven (ensures_toQueue hplay hw hb queue)
  | setData spec => exact ensures_setData_value hplay hw hb spec
  | changeData c => exact (ensures_changeData_value hloose c).mono fun _ _ hr => hr.2.1
  | takeData type keep =>
      apply Ensures.mono (ensures_takeData hplay hw hb type keep)
      intro _ w' hsame
      have hdata := congrArg (fun batch => batch.data.map (·.value)) hsame
      refine hdata.trans ?_
      change ((w.state.batches.get b).data.filter _).map _ =
        ((w.state.batches.get b).data.map _).filter _
      rw [Option.filter_map]
      rfl

end Use

/-! ## The cell of a batch in a session -/

/-- What was done with the cell of a batch since the batch was built, from the latest to the first.
In between anything may happen that leaves the cell alone. -/
inductive Kept (b : Key Batch) : List CellOp → World → Prop where
  | built {w : World} (e : Key Endpoint) (hb : b = w.state.batches.nextKey) :
      Kept b [] ((w.alter (·.addBatch e)).note (.batchBuilt b e))
  | put {w : World} {ops : List CellOp} (h : Kept b ops w) (hb : b.index < w.state.batches.size)
      (value : DataValue) :
      Kept b (.set value :: ops)
        ((w.alter fun s => (s.detachData b).attachData b value).note
          (.dataAttached b w.state.serial))
  | change {w : World} {ops : List CellOp} {a : Attachment} {c : DataChange} {value : DataValue}
      (h : Kept b ops w) (hdata : (w.state.batches.get b).data = some a)
      (hchange : a.value.change? c = some value) :
      Kept b (.change c :: ops)
        (w.alter fun s => { s with
          batches := s.batches.modify b fun batch =>
            { batch with data := some { a with value := value } } })
  | take {w : World} {ops : List CellOp} {a : Attachment} (h : Kept b ops w)
      (hdata : (w.state.batches.get b).data = some a) :
      Kept b (.take a.value.type :: ops)
        ((w.alter (·.detachData b)).note (.dataTaken b a.serial))
  /-- Whoever has the batch in hand uses it, which may be refused. -/
  | use {w : World} {ops : List CellOp} {play : Player} {hands : Hands} (h : Kept b ops w)
      (hplay : play.Fair) (hw : w.Ready hands) (hb : hands.Lent b) (use : Use) :
      Kept b ((use.cellOp? w.state.directory).toList ++ ops) ((use.run play b).worldAfter w)
  | aside {w w' : World} {ops : List CellOp} (h : Kept b ops w)
      (haside : (w'.state.batches.get b).data = (w.state.batches.get b).data)
      (hsuffix : w.history <:+ w'.history) :
      Kept b ops w'

variable {ops : List CellOp}

/-- The value of a batch is what was made of its cell. -/
theorem Kept.valueOf_eq (h : Kept b ops w) : w.state.valueOf b = CellOp.contents ops := by
  induction h with
  | @built w e hb =>
      subst hb
      exact congrArg (fun batch => batch.data.map (·.value))
        ((w.state.batches.get_push _ _).trans (if_pos rfl))
  | @put w ops _ hb value =>
      rw [State.valueOf, World.note_state, World.alter_state, State.attachData, State.detachData,
        Arena.modify_modify, Arena.get_modify_self _ _ _ hb]
      rfl
  | @change w ops a c value _ hdata hchange ih =>
      rw [State.valueOf, World.alter_state,
        Arena.get_modify_self _ _ _ (State.index_lt_of_data hdata), CellOp.contents_cons, ← ih,
        State.valueOf, hdata]
      simp [CellOp.apply, DataValue.changed, hchange]
  | @take w ops a _ hdata ih =>
      rw [State.valueOf, World.note_state, World.alter_state, State.detachData,
        Arena.get_modify_self _ _ _ (State.index_lt_of_data hdata), CellOp.contents_cons, ← ih,
        State.valueOf, hdata]
      simp [CellOp.apply, Option.filter]
  | @use w ops _ _ _ hplay hw hb use ih =>
      rw [(use.ensures_run_value hplay hw hb).worldAfter, ih]
      cases use.cellOp? w.state.directory <;> rfl
  | aside _ haside _ ih => exact (congrArg (Option.map (Attachment.value ·)) haside).trans ih

/-- A batch that is built by a command has no value. -/
theorem ensures_newBatch_kept {handle name : String} {h : Handle}
    (hhandle : w.state.directory.handles.find? handle = some h)
    (hfree : w.state.directory.batches.find? name = none)
    (hreferences : 0 < (w.state.endpoints.get h.endpoint).references) :
    Ensures (newBatch play handle name) w fun _ w' => Kept w.state.batches.nextKey [] w' := by
  have hbuilt : Kept w.state.batches.nextKey []
      ((((w.alter (·.gainReference h.endpoint)).note (.referenceTaken h.endpoint)).alter
        (·.addBatch h.endpoint)).note (.batchBuilt w.state.batches.nextKey h.endpoint)) :=
    .built (w := (w.alter (·.gainReference h.endpoint)).note (.referenceTaken h.endpoint)) _ rfl
  unfold newBatch withEndpoint endpointNamed keepBatch Batch.build
  simp only [ensures_bind, ensures_getState, then_ok, hhandle, ensures_pure,
    Endpoint.ensures_acquire hreferences, ensures_modifyState, ensures_record,
    ensures_modifyDirectory]
  split
  · exact hbuilt.aside rfl (List.suffix_refl _)
  · next replaced hreplaced => cases hfree.symm.trans hreplaced

/-- What others do while the batch is in somebody's hands is aside of it. -/
theorem Kept.others {give take : List Item} (h : Kept b ops w)
    (hmoves : Moves (hands.hold b) give take w w') (hloose : w.Loose b) :
    Kept b ops w' :=
  h.aside (congrArg Batch.data (hmoves.aside hloose).1) hmoves.changes.adds.suffix

/-- A command makes a use of the batch that is at hand, or what it does is aside of that. -/
theorem Kept.playCommand (h : Kept b ops w) (hplay : play.Fair) (hw : w.Ready hands)
    (hb : hands.Lent b) (command : Command) :
    Ensures (playCommand play (some b) command) w fun _ w' =>
      w'.Ready hands ∧ ∃ later, Kept b (later ++ ops) w' := by
  have hlent : ∀ b', some b = some b' → hands.Lent b' := fun b' hb' => Option.some.inj hb' ▸ hb
  refine Ensures.and ((playCommand_orderly hplay hw hlent command).mono fun r w' hr => ?_) ?_
  · cases r with
    | ok _ => exact hr.ready hw
    | error fault => exact hr.moves.ready hw
  · have hnoted : ∀ {w' : World} {r : Result}, (∃ later, Kept b (later ++ ops) w') →
        ∃ later, Kept b (later ++ ops) (w'.note (.stepEnded r)) :=
      fun ⟨later, hkept⟩ => ⟨later, hkept.aside rfl (List.suffix_cons _ _)⟩
    unfold Session.playCommand
    split
    · exact ⟨[], h⟩
    · rw [ensures_bind, ensures_settle]
      rcases Use.carryOut_atHand play b command with ⟨use, heq⟩ | heq
      · rw [heq]
        apply Ensures.mono (ensures_worldAfter (use.run play b) w)
        rintro r w' rfl
        exact hnoted ⟨_, h.use hplay hw hb use⟩
      · rw [heq]
        have hloose := hw.loose_of_lent hb
        apply Ensures.mono (carryOut_obeys hplay (hw.hold hloose) (by simp) command)
        exact fun r w' hr => hnoted ⟨[], h.others hr.moves hloose⟩

/-- A script that has the batch at hand makes uses of it, one after the other. -/
theorem Kept.played (h : Kept b ops w) (hw : w.Ready hands) (hb : hands.Lent b) (limit : Nat)
    (script : Script) :
    Ensures (player limit (some b) script) w fun _ w' => ∃ later, Kept b (later ++ ops) w' := by
  cases limit with
  | zero => exact ⟨[], h.aside rfl (List.suffix_cons _ _)⟩
  | succ limit =>
      change Ensures (script.forM (Session.playCommand (player limit) (some b))) w _
      induction script generalizing w ops with
      | nil => exact ⟨[], h⟩
      | cons command rest ih =>
          refine (ensures_bind _ _ _ _).mpr ?_
          apply Ensures.mono (h.playCommand (player_fair limit) hw hb command)
          rintro r w₁ ⟨hw₁, earlier, hkept⟩
          cases r with
          | error fault => exact ⟨earlier, hkept⟩
          | ok _ =>
              rw [then_ok]
              apply Ensures.mono (ih hkept hw₁)
              rintro r w' ⟨later, hkept'⟩
              exact ⟨later ++ earlier, by rwa [List.append_assoc]⟩

/-- What is known of the cell of a batch that somebody has at hand, after what was done with it. -/
structure CellKept (b : Key Batch) (ops : List CellOp) (limit : Nat) (w : World) : Prop where
  value : w.state.valueOf b = CellOp.contents ops
  /-- The value is the one that was set last and not taken since, with the changes made since. -/
  last : ∀ v, w.state.valueOf b = some v ↔
    ∃ later v₀ earlier, ops = later ++ CellOp.set v₀ :: earlier ∧
      (∀ op ∈ later, op.Spares v₀.type) ∧ v = v₀.changedBy (CellOp.changes later)
  /-- Who looks for the value as one of its type is told it, and nothing happens. -/
  reads : ∀ type, Ensures (getData b type) w fun r w' =>
    r = .ok (.ok (((CellOp.contents ops).filter (·.type = type)).elim .nothing
      (dataAnswer w.state))) ∧ w' = w
  /-- Who changes the value as one of its type is told it, and nothing happens if it has another
  type. -/
  changes : ∀ c, Ensures (changeData b c) w fun r w' =>
    r = .ok (.ok (((CellOp.contents ops).bind (·.change? c)).elim .nothing
      (dataAnswer w.state))) ∧
    w'.state.valueOf b = CellOp.contents (.change c :: ops) ∧
    ((CellOp.contents ops).bind (·.change? c) = none → w' = w)
  /-- Who takes the value as one of its type gets it out of the batch, and nothing happens if it has
  another type. -/
  takes : ∀ type, Ensures (Batch.takeDataOf? b type) w fun r w' =>
    ∃ taken? : Option Attachment, r = .ok taken? ∧
      taken?.map (·.value) = (CellOp.contents ops).filter (·.type = type) ∧
      (taken? = none → w' = w) ∧
      ∀ a, taken? = some a → (w'.state.batches.get b).data = none ∧
        w'.history = ⟨.dataTaken b a.serial, w'.state⟩ :: w.history
  uses : ∀ use : Use, Ensures (use.run (player limit) b) w fun _ w' =>
    Kept b ((use.cellOp? w.state.directory).toList ++ ops) w'
  /-- A script that has the batch at hand makes uses of it, one after the other. -/
  scripts : ∀ script, Ensures (player limit (some b) script) w fun _ w' =>
    ∃ later, Kept b (later ++ ops) w'
  /-- What others do meanwhile is aside of the cell. -/
  others : ∀ command, Ensures (carryOut (player limit) none command) w fun _ w' => Kept b ops w'

/-- A value is taken as one of its type, or nothing happens. -/
theorem ensures_takeDataOf?_value (hloose : w.Loose b) (type : DataType) :
    Ensures (Batch.takeDataOf? b type) w fun r w' =>
      ∃ taken? : Option Attachment, r = .ok taken? ∧
        taken?.map (·.value) = (w.state.valueOf b).filter (·.type = type) ∧
        (taken? = none → w' = w) ∧
        ∀ a, taken? = some a → (w'.state.batches.get b).data = none ∧
          w'.history = ⟨.dataTaken b a.serial, w'.state⟩ :: w.history := by
  unfold Batch.takeDataOf? State.valueOf
  simp only [ensures_bind, ensures_getState, then_ok]
  cases hdata : (w.state.batches.get b).data with
  | none => exact ⟨none, rfl, rfl, fun _ => rfl, fun _ h => by cases h⟩
  | some a =>
      by_cases htype : a.value.type = type
      case neg =>
        simp only [if_neg htype]
        exact ⟨none, rfl, by simp [Option.filter, htype], fun _ => rfl, fun _ h => by cases h⟩
      case pos =>
        simp only [if_pos htype, ensures_bind, Batch.ensures_takeData?, hdata, ensures_record,
          ensures_pure, then_ok]
        refine ⟨some a, rfl, by simp [Option.filter, htype],
          fun h => absurd h (Option.some_ne_none a), ?_⟩
        rintro a' ha'
        obtain rfl := Option.some.inj ha'
        exact ⟨congrArg Batch.data (Arena.get_modify_self _ _ _ hloose.1), rfl⟩

/-- The cell of a batch that somebody has at hand is what was made of it. -/
theorem Kept.cell (h : Kept b ops w) (hw : w.Ready Hands.empty) (hloose : w.Loose b)
    (limit : Nat) :
    CellKept b ops limit w := by
  have hready := hw.lend hloose
  have hlent : (Hands.empty.lend b).Lent b := Hands.MayTouch.lent List.not_mem_nil
  have hvalue := h.valueOf_eq
  refine ⟨hvalue, fun v => hvalue ▸ CellOp.contents_eq_some_iff, fun type => ?_, fun c => ?_,
    fun type => ?_, fun use => ?_, fun script => h.played hready hlent limit script,
    fun command => ?_⟩
  · rw [← hvalue]
    exact Use.ensures_getData_value b type
  · rw [CellOp.contents_cons, ← hvalue]
    exact Use.ensures_changeData_value hloose c
  · rw [← hvalue]
    exact ensures_takeDataOf?_value hloose type
  · apply Ensures.mono (ensures_worldAfter (use.run (player limit) b) w)
    rintro r w' rfl
    exact h.use (player_fair limit) hready hlent use
  · apply Ensures.mono (carryOut_obeys (player_fair limit) (hw.hold hloose) (by simp) command)
    exact fun _ _ hr => h.others hr.moves hloose

theorem Kept.unnamed {name : String} (h : Kept b ops w) (hw : Reachable w)
    (hfind : w.state.directory.batches.find? name = some b) (limit : Nat) :
    CellKept b ops limit (w.unname name) := by
  obtain ⟨hunname, hown⟩ := hw.own_unnamed hfind
  have hunnamed : Kept b ops (w.unname name) := h.aside rfl (List.suffix_refl _)
  exact hunnamed.cell (hunname.ready hw.ready) hown.loose limit

/-- A command that uses a batch by its name makes that use and no other, unless user code takes the
name meanwhile. -/
theorem Kept.commanded {name : String} {limit : Nat} {use : Use} (h : Kept b ops w)
    (hw : Reachable w) (hfind : w.state.directory.batches.find? name = some b)
    (hfree : ((use.run (player limit) b).worldAfter
      (w.unname name)).state.directory.batches.find? name = none) :
    Ensures (carryOut (player limit) none (use.command name)) w fun r w' =>
      (Ensures (use.run (player limit) b) (w.unname name) fun r' _ => r' = r) ∧
        Kept b ((use.cellOp? w.state.directory).toList ++ ops) w' := by
  apply use.ensures_command hfind hfree
  apply Ensures.mono (ensures_self (use.run (player limit) b) (w.unname name))
  rintro r w' ⟨hr, rfl⟩
  obtain ⟨hunname, hown⟩ := hw.own_unnamed hfind
  have hready := (hunname.ready hw.ready).lend hown.loose
  have hunnamed : Kept b ops (w.unname name) := h.aside rfl (List.suffix_refl _)
  have hused := hunnamed.use (player_fair limit) hready hown.mayEnd.mayTouch.lent use
  exact ⟨hr, hused.aside rfl (List.suffix_refl _)⟩

end Session
end UsbTransfer
