import UsbTransfer.Proofs.Fairness

/-!
# Uses of a batch

Whoever has a batch in hand may use it.  Some uses change its plain data, in a way that depends on
these data alone; some of them are refused, and then change nothing.  The others run user code or
destroy things, and leave the plain data as they were, whatever the user code does and however
they end.
-/

namespace UsbTransfer

open Run

/-! ## What becomes of a batch -/

namespace Batch

variable {play : Player} {hands : Hands} {w : World} {b : Key Batch}

theorem get_attachHandler {s : State} (hb : b.index < s.batches.size) (action : HandlerAction)
    (captured : List (Key Endpoint)) (noisy : Bool) :
    (s.attachHandler b action captured noisy).batches.get b =
      { s.batches.get b with handler := some ⟨s.serial, action, captured, noisy⟩ } :=
  Arena.get_modify_self _ _ _ hb

theorem get_attachData {s : State} (hb : b.index < s.batches.size) (value : DataValue) :
    (s.attachData b value).batches.get b =
      { s.batches.get b with data := some ⟨s.serial, value⟩ } :=
  Arena.get_modify_self _ _ _ hb

/-- What was replaced is destroyed aside of the batch. -/
theorem ensures_destroy_replaced {x : Belonging} {captured : List (Key Endpoint)} {w' : World}
    (hplay : play.Fair) (hw : w.Ready hands) (hb : hands.Lent b) (hx : x.OwnedBy b w.state)
    (hspare : ∀ e, captured.count e ≤ w.state.spare e)
    (hattach : (∀ e, captured.count e ≤ (w.alter (x.detach b)).state.spare e) →
      Moves hands (Item.references captured) [] (w.alter (x.detach b)) w') :
    Ensures (x.destroy play b) w' fun _ w'' =>
      w''.state.batches.get b = w'.state.batches.get b := by
  obtain ⟨hmoves, hspare'⟩ := Belonging.ready_of_replaced hw hb.1 hx hspare hattach
  have hready := hmoves.ready hw
  have hloose := hready.loose_of_lent hb
  apply Ensures.mono (x.ensures_destroy hplay hready hloose hspare')
  rintro r w'' ⟨w₁, haside, rfl, -⟩
  exact (haside.aside hloose).1

/-- A batch that gets a handler changes in nothing else. -/
theorem ensures_attachHandler (hplay : play.Fair) (hw : w.Ready hands) (hb : hands.Lent b)
    {action : HandlerAction} {captured : List (Key Endpoint)} (noisy : Bool)
    (hspare : ∀ e, captured.count e ≤ w.state.spare e) (hforwards : w.state.Forwards action) :
    Ensures (attachHandler play b action captured noisy) w fun _ w' =>
      w'.state.batches.get b =
        { w.state.batches.get b with
          handler := some ⟨w.state.serial, action, captured, noisy⟩ } := by
  have hloose := hw.loose_of_lent hb
  unfold attachHandler
  simp only [ensures_bind, ensures_takeHandler?]
  cases hhandler : (w.state.batches.get b).handler with
  | none =>
      simp only [then_ok, ensures_bind, ensures_getState, ensures_modifyState, ensures_record]
      exact get_attachHandler hloose.1 action captured noisy
  | some replaced =>
      have hgone := Belonging.get_detach (.handler replaced) hloose
      have hloose' := Belonging.loose_detach (.handler replaced) hloose
      have hattached := get_attachHandler hloose'.1 action captured noisy
      rw [World.alter_state, hgone] at hattached
      simp only [then_ok, ensures_bind, ensures_getState, ensures_modifyState, ensures_record]
      apply Ensures.mono (ensures_destroy_replaced (x := .handler replaced) hplay hw hb hhandler
        hspare fun hroom =>
          .attachHandler hb.1 hloose'.1 (congrArg Batch.handler hgone) hroom hforwards)
      exact fun _ _ hsame => hsame.trans hattached

/-- A batch that gets a value changes in nothing else. -/
theorem ensures_attachData (hplay : play.Fair) (hw : w.Ready hands) (hb : hands.Lent b)
    {value : DataValue} (hspare : ∀ e, value.captured.count e ≤ w.state.spare e) :
    Ensures (attachData play b value) w fun _ w' =>
      w'.state.batches.get b =
        { w.state.batches.get b with data := some ⟨w.state.serial, value⟩ } := by
  have hloose := hw.loose_of_lent hb
  unfold attachData
  simp only [ensures_bind, ensures_takeData?]
  cases hdata : (w.state.batches.get b).data with
  | none =>
      simp only [then_ok, ensures_bind, ensures_getState, ensures_modifyState, ensures_record]
      exact get_attachData hloose.1 value
  | some replaced =>
      have hgone := Belonging.get_detach (.data replaced) hloose
      have hloose' := Belonging.loose_detach (.data replaced) hloose
      have hattached := get_attachData hloose'.1 value
      rw [World.alter_state, hgone] at hattached
      simp only [then_ok, ensures_bind, ensures_getState, ensures_modifyState, ensures_record]
      apply Ensures.mono (ensures_destroy_replaced (x := .data replaced) hplay hw hb hdata
        hspare fun hroom => .attachData hb.1 hloose'.1 (congrArg Batch.data hgone) hroom)
      exact fun _ _ hsame => hsame.trans hattached

/-- The value is taken if it has the right type, and left where it is otherwise. -/
theorem ensures_takeDataOf?_own (hloose : w.Loose b) (type : DataType) :
    Ensures (takeDataOf? b type) w fun r w' =>
      r = .ok ((w.state.batches.get b).data.filter (·.value.type = type)) ∧
        w'.state.batches.get b =
          { w.state.batches.get b with
            data := (w.state.batches.get b).data.filter (·.value.type ≠ type) } := by
  have hgone : (w.state.detachData b).batches.get b = { w.state.batches.get b with data := none } :=
    Arena.get_modify_self _ _ _ hloose.1
  unfold takeDataOf?
  simp only [ensures_bind, ensures_getState, then_ok]
  cases hdata : (w.state.batches.get b).data with
  | none => exact ⟨rfl, by rw [Option.filter_none, ← hdata]⟩
  | some a =>
      dsimp only
      split
      · next htype =>
          simp only [ensures_bind, ensures_takeData?, hdata, then_ok, ensures_record,
            ensures_pure]
          exact ⟨by simp [Option.filter, htype], by simpa [Option.filter, htype] using hgone⟩
      · next htype =>
          refine ⟨by simp [Option.filter, htype], ?_⟩
          have hkept : (some a).filter (·.value.type ≠ type) = some a := by
            simp [Option.filter, htype]
          rw [hkept, ← hdata]

end Batch

namespace Session

/-! ## Uses -/

/-- What can be done with a batch that one has in hand. -/
inductive Use where
  | info
  | text (style : Style)
  | endpoint (keep : Option String)
  | isOn (handle : String)
  | setScope (scope : ResetScope)
  | setSetup (setup : SetupPacket)
  | setBuffer (data : List UInt8)
  | allocBuffer (length : Nat) (granted : Bool)
  | write (start : Nat) (bytes : List UInt8)
  | complete (status : Status) (actual : Nat)
  | schedule
  | resetToggle
  | onComplete (handler : HandlerSpec Script)
  | toQueue (queue : String)
  | setData (value : DataSpec)
  | getData (type : DataType)
  | changeData (change : DataChange)
  | takeData (type : DataType) (keep : Option String)

namespace Use

/-- The command that makes a use of a named batch. -/
def command (batch : String) : Use → Command
  | info => .batchInfo batch
  | text style => .batchText batch style
  | endpoint keep => .batchEndpoint batch keep
  | isOn handle => .batchIsOn batch handle
  | setScope scope => .setScope batch scope
  | setSetup setup => .setSetup batch setup
  | setBuffer data => .setBuffer batch data
  | allocBuffer length granted => .allocBuffer batch length granted
  | write start bytes => .write batch start bytes
  | complete status actual => .complete batch status actual
  | schedule => .schedule batch
  | resetToggle => .resetToggle batch
  | onComplete handler => .onComplete batch handler
  | toQueue queue => .toQueue batch queue
  | setData value => .setData batch value
  | getData type => .getData batch type
  | changeData change => .changeData batch change
  | takeData type keep => .takeData batch type keep

/-- Makes a use of a batch. -/
def run (play : Player) (b : Key Batch) : Use → Run Result
  | info => batchInfo b
  | text style => batchText b style
  | endpoint keep => batchEndpoint play b keep
  | isOn handle => batchIsOn b handle
  | setScope scope => changeTransfer b (·.setScope scope)
  | setSetup setup => Session.setSetup b setup
  | setBuffer data => changeTransfer b (·.setBuffer data)
  | allocBuffer length granted => Session.allocBuffer b length granted
  | write start bytes => Session.write b start bytes
  | complete status actual => changeTransfer b (·.complete status actual)
  | schedule => Session.schedule b
  | resetToggle => Session.resetToggle play b
  | onComplete handler => Session.onComplete play b handler
  | toQueue queue => Session.toQueue play b queue
  | setData value => Session.setData play b value
  | getData type => Session.getData b type
  | changeData change => Session.changeData b change
  | takeData type keep => Session.takeData play b type keep

/-- To use a batch by its name is to have it in hand meanwhile. -/
theorem carryOut_command (play : Player) (atHand : Option (Key Batch)) (batch : String)
    (use : Use) :
    carryOut play atHand (use.command batch) = onBatch play atHand batch (use.run play) := by
  cases use <;> rfl

/-- Whoever has a batch at hand uses it, or does what others could do. -/
theorem carryOut_atHand (play : Player) (b : Key Batch) (command : Command) :
    (∃ use : Use, carryOut play (some b) command = use.run play b) ∨
      carryOut play (some b) command = carryOut play none command := by
  have hused : ∀ (name : String) (use : Use),
      (∃ use' : Use, carryOut play (some b) (use.command name) = use'.run play b) ∨
        carryOut play (some b) (use.command name) = carryOut play none (use.command name) := by
    intro name use
    rw [carryOut_command, carryOut_command]
    by_cases hname : name = atHandName
    case pos => exact .inl ⟨use, by simp only [onBatch, if_pos hname]⟩
    case neg => exact .inr (by simp only [onBatch, if_neg hname])
  cases command with
  | batchInfo name => exact hused name .info
  | batchText name style => exact hused name (.text style)
  | batchEndpoint name keep => exact hused name (.endpoint keep)
  | batchIsOn name handle => exact hused name (.isOn handle)
  | setScope name scope => exact hused name (.setScope scope)
  | setSetup name setup => exact hused name (.setSetup setup)
  | setBuffer name data => exact hused name (.setBuffer data)
  | allocBuffer name length granted => exact hused name (.allocBuffer length granted)
  | write name start bytes => exact hused name (.write start bytes)
  | complete name status actual => exact hused name (.complete status actual)
  | schedule name => exact hused name .schedule
  | resetToggle name => exact hused name .resetToggle
  | onComplete name handler => exact hused name (.onComplete handler)
  | toQueue name queue => exact hused name (.toQueue queue)
  | setData name value => exact hused name (.setData value)
  | getData name type => exact hused name (.getData type)
  | changeData name change => exact hused name (.changeData change)
  | takeData name type keep => exact hused name (.takeData type keep)
  | _ => exact .inr rfl

/-- What becomes of the plain data of a batch.  A use that is refused leaves them as they were. -/
def apply : Use → Transfer → Transfer
  | setScope scope, t => t.setScope scope
  | setSetup setup, t => (t.setSetup setup).toOption.getD t
  | setBuffer data, t => t.setBuffer data
  | allocBuffer length granted, t => (t.allocBuffer? length granted).getD t
  | write start bytes, t => (t.write? start bytes).getD t
  | complete status actual, t => t.complete status actual
  | schedule, t => t.schedule.toOption.getD t
  | _, t => t

variable {play : Player} {hands : Hands} {w : World} {b : Key Batch}

/-- The answer to a use does not matter to the batch. -/
theorem ensures_answered {α : Type} {m : Run α} {P : World → Prop}
    (hm : Ensures m w fun _ w' => P w') (answer : α → Result) :
    Ensures (m >>= fun a => pure (answer a)) w fun _ w' => P w' := by
  rw [ensures_bind]
  apply Ensures.mono hm
  intro r w' hr
  cases r <;> exact hr

/-- What is orderly whoever holds a batch leaves that batch alone. -/
theorem ensures_aside {m : Run Result} (hloose : w.Loose b)
    (hm : Obeys (hands.hold b) m w) :
    Ensures m w fun _ w' => w'.state.batches.get b = w.state.batches.get b := by
  apply Ensures.mono hm
  exact fun _ _ hr => (hr.moves.aside hloose).1

theorem get_setTransfer (hloose : w.Loose b) (t : Transfer) :
    (w.alter (·.setTransfer b t)).state.batches.get b =
      { w.state.batches.get b with transfer := t } :=
  Arena.get_modify_self _ _ _ hloose.1

theorem ensures_changeTransfer (hloose : w.Loose b) (f : Transfer → Transfer) :
    Ensures (changeTransfer b f) w fun _ w' =>
      w'.state.batches.get b =
        { w.state.batches.get b with transfer := f (w.state.transferOf b) } := by
  simp only [changeTransfer, ensures_bind, Batch.ensures_modifyTransfer, then_ok, ensures_pure]
  exact get_setTransfer hloose _

/-- A change that may be refused is made if it is not. -/
theorem ensures_edit (hloose : w.Loose b) (edited : Except Fault Transfer) :
    Ensures (do
        let transfer ← ofExcept edited
        Batch.modifyTransfer b fun _ => transfer : Run Unit) w fun _ w' =>
      w'.state.batches.get b =
        { w.state.batches.get b with
          transfer := edited.toOption.getD (w.state.transferOf b) } := by
  cases edited with
  | error fault => exact rfl
  | ok t =>
      change Ensures (Batch.modifyTransfer b fun _ => t) w _
      rw [Batch.ensures_modifyTransfer]
      exact get_setTransfer hloose t

theorem ensures_allocBuffer (hloose : w.Loose b) (length : Nat) (granted : Bool) :
    Ensures (Session.allocBuffer b length granted) w fun _ w' =>
      w'.state.batches.get b =
        { w.state.batches.get b with
          transfer := ((w.state.transferOf b).allocBuffer? length granted).getD
            (w.state.transferOf b) } := by
  simp only [Session.allocBuffer, Batch.allocBuffer, ensures_bind, ensures_getState, then_ok]
  cases (w.state.transferOf b).allocBuffer? length granted with
  | none => exact rfl
  | some t =>
      simp only [ensures_bind, Batch.ensures_modifyTransfer, then_ok, ensures_pure]
      exact get_setTransfer hloose t

theorem ensures_write (hloose : w.Loose b) (start : Nat) (bytes : List UInt8) :
    Ensures (Session.write b start bytes) w fun _ w' =>
      w'.state.batches.get b =
        { w.state.batches.get b with
          transfer := ((w.state.transferOf b).write? start bytes).getD
            (w.state.transferOf b) } := by
  simp only [Session.write, ensures_bind, ensures_getState, then_ok]
  cases (w.state.transferOf b).write? start bytes with
  | none => exact rfl
  | some t => exact ensures_changeTransfer hloose fun _ => t

/-- A reset that is asked for happens aside of the batch. -/
theorem ensures_resetToggle (hplay : play.Fair) (hw : w.Ready hands) (hb : hands.Lent b) :
    Ensures (Session.resetToggle play b) w fun _ w' =>
      w'.state.batches.get b = w.state.batches.get b := by
  have hloose := hw.loose_of_lent hb
  unfold Session.resetToggle
  rw [ensures_bind]
  apply Ensures.mono (Batch.ensures_resetToggles hplay hw hloose)
  intro r w₁ hr
  have hsame := (hr.aside hloose).1
  cases r with
  | error fault => exact hsame
  | ok outcome => cases outcome <;> exact hsame

/-- What is attached is taken from elsewhere first, and that happens aside of the batch. -/
theorem ensures_attach {α : Type} {P : Batch → Prop} {m : Run (Except Mistake α)}
    {attach : Except Mistake α → Run Result} {take : Except Mistake α → List Item}
    (hloose : w.Loose b) (hm : Orderly (hands.hold b) Fault.Raised [] take m w)
    (hrefused : ∀ mistake, attach (.error mistake) = refuse mistake)
    (hkept : P (w.state.batches.get b))
    (hattach : ∀ (a : α) (w' : World), Moves hands [] (take (.ok a)) w w' →
      w'.state.batches.get b = w.state.batches.get b →
        Ensures (attach (.ok a)) w' fun _ w'' => P (w''.state.batches.get b)) :
    Ensures (m >>= attach) w fun _ w' => P (w'.state.batches.get b) := by
  have hsame : ∀ {give w'}, Moves (hands.hold b) [] give w w' →
      w'.state.batches.get b = w.state.batches.get b :=
    fun hmoves => (hmoves.aside hloose).1
  rw [ensures_bind]
  apply Ensures.mono hm
  intro r w₁ hr
  cases r with
  | error fault =>
      change P (w₁.state.batches.get b)
      rwa [hsame hr.1]
  | ok answer =>
      have hmoves : Moves (hands.hold b) [] (take answer) w w₁ := hr
      rw [then_ok]
      cases answer with
      | error mistake =>
          rw [hrefused]
          change P (w₁.state.batches.get b)
          rwa [hsame hmoves]
      | ok a => exact hattach a w₁ (hmoves.within (hands.within_hold b)) (hsame hmoves)

/-- A batch gets another handler at most. -/
theorem ensures_onComplete (hplay : play.Fair) (hw : w.Ready hands) (hb : hands.Lent b)
    (handler : HandlerSpec Script) :
    Ensures (Session.onComplete play b handler) w fun _ w' =>
      ∃ handler?, w'.state.batches.get b =
        { w.state.batches.get b with handler := handler? } := by
  have hloose := hw.loose_of_lent hb
  have htaken : Orderly (hands.hold b) Fault.Raised []
      (fun all => Item.references (all.toOption.getD []))
      (takeHandles play [] handler.captured) w :=
    takeHandles_orderly hplay handler.captured (hw.hold hloose) fun _ => Nat.zero_le _
  refine ensures_attach (P := fun batch => ∃ handler?,
      batch = { w.state.batches.get b with handler := handler? })
    hloose htaken (fun _ => rfl) ⟨_, rfl⟩ fun captured w₁ hmoves hsame => ?_
  have hmoves : Moves hands [] (Item.references captured) w w₁ := hmoves
  have hforwards : w₁.state.Forwards (.run handler.name handler.code handler.reply) :=
    fun _ => nofun
  refine ensures_answered (Ensures.mono (Batch.ensures_attachHandler hplay (hmoves.ready hw) hb
    handler.noisy hmoves.spare_taken hforwards) fun _ _ hattached => ?_) _
  rw [hsame] at hattached
  exact ⟨_, hattached⟩

/-- A batch gets another handler at most. -/
theorem ensures_toQueue (hplay : play.Fair) (hw : w.Ready hands) (hb : hands.Lent b)
    (queue : String) :
    Ensures (Session.toQueue play b queue) w fun _ w' =>
      ∃ handler?, w'.state.batches.get b =
        { w.state.batches.get b with handler := handler? } := by
  unfold Session.toQueue
  rw [ensures_bind, ensures_getState, then_ok]
  split
  · exact ⟨_, rfl⟩
  · next q hfind =>
      have hforwards : w.state.Forwards (.forward q) := by
        rintro q' ⟨⟩
        exact hw.sound.queuesExist q (Names.mem_values_of_find? hfind)
      refine ensures_answered (Ensures.mono (Batch.ensures_attachHandler hplay hw hb false
        (fun _ => Nat.zero_le _) hforwards) fun _ _ hattached => ?_) _
      exact ⟨_, hattached⟩

/-- A batch gets another value at most. -/
theorem ensures_setData (hplay : play.Fair) (hw : w.Ready hands) (hb : hands.Lent b)
    (spec : DataSpec) :
    Ensures (Session.setData play b spec) w fun _ w' =>
      ∃ data?, w'.state.batches.get b = { w.state.batches.get b with data := data? } := by
  have hloose := hw.loose_of_lent hb
  refine ensures_attach (P := fun batch => ∃ data?,
      batch = { w.state.batches.get b with data := data? })
    hloose (takeValue_orderly (hw.hold hloose) spec) (fun _ => rfl) ⟨_, rfl⟩
    fun value w₁ hmoves hsame => ?_
  refine ensures_answered (Ensures.mono (Batch.ensures_attachData hplay (hmoves.ready hw) hb
    (Moves.spare_taken hmoves)) fun _ _ hattached => ?_) _
  rw [hsame] at hattached
  exact ⟨_, hattached⟩

theorem ensures_changeData (b : Key Batch) (change : DataChange) :
    Ensures (Session.changeData b change) w fun _ w' =>
      w'.state.transferOf b = w.state.transferOf b := by
  unfold Session.changeData
  rw [ensures_bind, ensures_getState, then_ok]
  split
  · exact rfl
  · split
    · exact rfl
    · exact Arena.apply_get_modify _ b b _ Batch.transfer fun _ => rfl

/-- A value that is taken out goes away, or gets a name, aside of the batch. -/
theorem ensures_takeData (hplay : play.Fair) (hw : w.Ready hands) (hb : hands.Lent b)
    (type : DataType) (keep : Option String) :
    Ensures (Session.takeData play b type keep) w fun _ w' =>
      w'.state.batches.get b =
        { w.state.batches.get b with
          data := (w.state.batches.get b).data.filter (·.value.type ≠ type) } := by
  have hloose := hw.loose_of_lent hb
  unfold Session.takeData
  rw [ensures_bind]
  apply Ensures.mono ((Batch.ensures_takeDataOf? hw hb type).and
    (Batch.ensures_takeDataOf?_own hloose type))
  rintro r w₁ ⟨⟨taken, rfl, hmoves, -⟩, -, hown⟩
  rw [← hown]
  have hready := hmoves.ready hw
  have hloose₁ := hready.loose_of_lent hb
  rw [then_ok]
  cases taken with
  | none => exact rfl
  | some a =>
      simp only [Option.map_some, Option.getD_some] at hmoves
      have hdestroyed : ∀ answer : Answer, Ensures (do
          a.destroy play b
          return (.ok answer : Result)) w₁ fun _ w' =>
            w'.state.batches.get b = w₁.state.batches.get b := by
        intro answer
        refine ensures_answered (Ensures.mono (Belonging.ensures_destroy hplay hready hloose₁
          (.data a) hmoves.spare_taken) ?_) _
        rintro r w' ⟨w₂, haside, rfl, -⟩
        exact (haside.aside hloose₁).1
      cases hvalue : a.value with
      | handle e =>
          rw [hvalue] at hmoves
          simp only [hvalue, ensures_bind, ensures_getState, then_ok]
          refine (ensures_bind _ _ _ _).mp (ensures_answered (Ensures.mono
            (keepOrRelease_orderly hplay (hready.hold hloose₁) keep hmoves.spare_pos)
            fun _ _ hr => ?_) _)
          exact (hr.moves.aside hloose₁).1
      | number | text | noisy =>
          simp only [hvalue, ensures_bind, ensures_getState, then_ok]
          exact (ensures_bind _ _ _ _).mp (hdestroyed _)

/-- Whatever user code does meanwhile and however the use ends, its effect on the plain data is a
matter of these data alone. -/
theorem ensures_run (hplay : play.Fair) (hw : w.Ready hands) (hb : hands.Lent b) (use : Use) :
    Ensures (use.run play b) w fun _ w' =>
      w'.state.transferOf b = use.apply (w.state.transferOf b) := by
  have hloose := hw.loose_of_lent hb
  have hplain : ∀ {m : Run Result} {f : World → Batch},
      (Ensures m w fun _ w' => w'.state.batches.get b = f w') →
        Ensures m w fun _ w' => w'.state.transferOf b = (f w').transfer :=
    fun hm => hm.mono fun _ _ hsame => congrArg Batch.transfer hsame
  have haside : ∀ {m : Run Result}, Obeys (hands.hold b) m w →
      Ensures m w fun _ w' => w'.state.transferOf b = w.state.transferOf b :=
    fun hm => hplain (ensures_aside hloose hm)
  have hsame : ∀ {α : Type} {m : Run Result} {f : α → Batch},
      (Ensures m w fun _ w' => ∃ a, w'.state.batches.get b = f a) →
        (∀ a, (f a).transfer = w.state.transferOf b) →
          Ensures m w fun _ w' => w'.state.transferOf b = w.state.transferOf b := by
    intro α m f hm hf
    apply Ensures.mono hm
    rintro _ w' ⟨a, ha⟩
    exact (congrArg Batch.transfer ha).trans (hf a)
  cases use with
  | info => exact haside (.refl _ w)
  | text style => exact haside (batchText_obeys b style)
  | endpoint keep => exact haside (batchEndpoint_obeys hplay (hw.hold hloose) b keep)
  | isOn handle => exact haside (batchIsOn_obeys b handle)
  | getData type => exact haside (getData_obeys b type)
  | setScope scope => exact hplain (ensures_changeTransfer hloose (·.setScope scope))
  | setBuffer data => exact hplain (ensures_changeTransfer hloose (·.setBuffer data))
  | complete status actual =>
      exact hplain (ensures_changeTransfer hloose (·.complete status actual))
  | setSetup setup => exact hplain (ensures_answered (ensures_edit hloose _) _)
  | schedule => exact hplain (ensures_answered (ensures_edit hloose _) _)
  | allocBuffer length granted => exact hplain (ensures_allocBuffer hloose length granted)
  | write start bytes => exact hplain (ensures_write hloose start bytes)
  | resetToggle => exact hplain (ensures_resetToggle hplay hw hb)
  | onComplete handler => exact hsame (ensures_onComplete hplay hw hb handler) fun _ => rfl
  | toQueue queue => exact hsame (ensures_toQueue hplay hw hb queue) fun _ => rfl
  | setData value => exact hsame (ensures_setData hplay hw hb value) fun _ => rfl
  | changeData change => exact ensures_changeData b change
  | takeData type keep =>
      apply Ensures.mono (ensures_takeData hplay hw hb type keep)
      exact fun _ _ htaken => (congrArg Batch.transfer htaken).trans rfl

end Use
end Session
end UsbTransfer
