import UsbTransfer.Proofs.Likeness.Sessions
import UsbTransfer.Proofs.Sessions

/-!
# Discretion

What user code answers on a best-effort basis goes no further than the log.  Two sessions that
differ in nothing but such answers go through alike states, with the same reports and results;
only who asks directly for toggles to be reset is told what the bus answered.
-/

namespace UsbTransfer

open Run

/-! ## Worlds -/

structure Moment.Alike (m m' : Moment) : Prop where
  occurrence : m.occurrence.Alike m'.occurrence
  state : m.state.Alike m'.state

namespace World

/-- The moments that are more than a remark, the latest first. -/
def events (w : World) : List Moment :=
  w.history.filter fun m => !m.occurrence.isRemark

/-- The same happened in two worlds, and they are in alike states. -/
structure Alike (w w' : World) : Prop where
  state : w.state.Alike w'.state
  events : List.Forall₂ Moment.Alike w.events w'.events

theorem Alike.empty : World.empty.Alike .empty :=
  ⟨.refl _, .nil⟩

variable {w w' : World}

theorem Alike.note (h : w.Alike w') {o o' : Occurrence} (ho : o.Alike o') :
    (w.note o).Alike (w'.note o') := by
  refine ⟨h.state, ?_⟩
  have hremark : o'.isRemark = o.isRemark := by cases ho <;> rfl
  simp only [World.events, note_history, List.filter_cons, hremark]
  split
  · exact .cons ⟨ho, h.state⟩ h.events
  · exact h.events

theorem events_remark (w : World) {o : Occurrence} (ho : o.isRemark = true) :
    (w.note o).events = w.events := by
  simp [World.events, ho]

end World

/-- What is compared when answers differ: the states up to answers to come, and what is on record
up to answers and remarks. -/
def Comparison.answers : Comparison where
  strict := False
  worlds := World.Alike
  state := fun h => ⟨h.state, False.elim, False.elim⟩
  alter := fun h hf => ⟨hf.alike _ _ h.state, h.events⟩
  note := fun h ho => h.note ho.alike
  remark := fun {w w' _} _ h ho =>
    ⟨⟨h.state, w.events_remark ho ▸ h.events⟩, ⟨h.state, w'.events_remark ho ▸ h.events⟩⟩

/-- From alike worlds two operations come to alike outcomes. -/
abbrev Run.Alike {α α' : Type} (R : α → α' → Prop) (m : Run α) (m' : Run α') : Prop :=
  Related World.Alike R m m'

/-! ## Reports -/

namespace Report

/-- The report is a message in the log. -/
def isLogged : Report → Bool
  | .logged _ _ => true
  | _ => false

/-- The reports that are no messages in the log. -/
def events (reports : List Report) : List Report :=
  reports.filter fun report => !report.isLogged

/-- The same report, or one that tells the answer to a direct request to reset toggles. -/
inductive Alike : Report → Report → Prop where
  | same (report : Report) : Alike report report
  | stepEnded {result result' : Result} (h : result.TellsReset) (h' : result'.TellsReset) :
      Alike (.stepEnded result) (.stepEnded result')

end Report

namespace Moment

variable {m m' : Moment}

theorem ofBus_isLogged (m : Moment) (bus : Key Bus) {report : String → Report}
    (h : ∀ name, (report name).isLogged = false) {r : Report} (hr : m.ofBus bus report = some r) :
    r.isLogged = false := by
  simp only [ofBus] at hr
  split at hr
  · cases hr
  · obtain rfl := Option.some.inj hr
    exact h _

theorem event?_isLogged {r : Report} (hr : m.event? = some r) : r.isLogged = false := by
  unfold event? at hr
  split at hr
  case h_1 | h_2 | h_3 | h_4 => exact ofBus_isLogged m _ (fun _ => rfl) hr
  all_goals
    cases hr
    try rfl

/-- Whatever is shown of the log, the other reports are those that are made without a log. -/
theorem filter_report? (verbosity : Verbosity) (m : Moment) :
    ((m.report? verbosity).filter fun report => !report.isLogged) = m.report? none := by
  unfold report?
  split
  · split <;> rfl
  · cases hevent : m.event? with
    | none => rfl
    | some r => simp [event?_isLogged hevent]

theorem report?_of_isRemark (h : m.occurrence.isRemark = true) : m.report? none = none := by
  obtain ⟨o, s⟩ := m
  cases o <;> first | rfl | cases h

theorem ofBus_of_alike {s s' : State} (h : s.Alike s') (o : Occurrence) (bus : Key Bus)
    (report : String → Report) :
    Moment.ofBus ⟨o, s'⟩ bus report = Moment.ofBus ⟨o, s⟩ bus report := by
  obtain ⟨hname, hplan⟩ := h.buses.get bus
  unfold ofBus
  simp only [hname, hplan.silent_eq]

theorem report?_of_alike (h : m.Alike m') :
    Option.Rel Report.Alike (m.report? none) (m'.report? none) := by
  obtain ⟨o, s⟩ := m
  obtain ⟨o', s'⟩ := m'
  obtain ⟨ho, hs⟩ := h
  change s.Alike s' at hs
  cases ho with
  | endpointFreed e reply reply' => cases reply <;> cases reply' <;> exact .none
  | batchReleased b reply reply' => cases reply <;> cases reply' <;> exact .none
  | stepEnded hr hr' => exact .some (.stepEnded hr hr')
  | same o =>
      have hlog : Moment.log? ⟨o, s'⟩ = Moment.log? ⟨o, s⟩ := by
        unfold log? lineOf
        simp only [hs.targetOf, hs.labelOf, hs.busOf, hs.transferOf]
      have hevent : Moment.event? ⟨o, s'⟩ = Moment.event? ⟨o, s⟩ := by
        unfold event?
        simp only [hs.targetOf, hs.endpoints, hs.batchView, hs.handleView, ofBus_of_alike hs]
      unfold report?
      rw [hlog, hevent]
      exact optionRel_refl .same _

end Moment

namespace World

/-- What happened after an earlier world. -/
theorem events_append {w w' : World} {since : List Moment} (h : w'.history = since ++ w.history) :
    w'.events = (since.filter fun m => !m.occurrence.isRemark) ++ w.events := by
  unfold events
  rw [h, List.filter_append]

/-- What happened since alike worlds is alike, if it led to alike worlds. -/
theorem Alike.since {w w' v v' : World} (hw : w.Alike w') (hv : v.Alike v')
    {since since' : List Moment} (h : v.history = since ++ w.history)
    (h' : v'.history = since' ++ w'.history) :
    List.Forall₂ Moment.Alike (since.filter fun m => !m.occurrence.isRemark)
      (since'.filter fun m => !m.occurrence.isRemark) := by
  have hall := hv.events
  rw [events_append h, events_append h'] at hall
  have hlength := hall.length_eq
  rw [List.length_append, List.length_append, hw.events.length_eq] at hlength
  have htake := List.forall₂_take (since.filter fun m => !m.occurrence.isRemark).length hall
  rwa [List.take_left, Nat.add_right_cancel hlength, List.take_left] at htake

end World

namespace Session

variable {w w' v v' : World}

theorem events_reportsSince {since : List Moment} (h : v.history = since ++ w.history)
    (verbosity : Verbosity) :
    Report.events (reportsSince verbosity w v) =
      (since.filter fun m => !m.occurrence.isRemark).reverse.filterMap (Moment.report? none) := by
  have hsince : v.history.take (v.history.length - w.history.length) = since := by
    rw [h, List.length_append, Nat.add_sub_cancel, List.take_left]
  unfold Report.events reportsSince
  rw [hsince, List.filter_filterMap, ← List.filter_reverse, List.filterMap_filter]
  refine congrArg (List.filterMap · _) (funext fun m => ?_)
  rw [Moment.filter_report?]
  split
  · rfl
  · next hremark => exact Moment.report?_of_isRemark (by simpa using hremark)

/-- What is seen besides the log is alike. -/
theorem reportsSince_alike (hw : w.Alike w') (hv : v.Alike v') (h : w.history <:+ v.history)
    (h' : w'.history <:+ v'.history) (verbosity verbosity' : Verbosity) :
    List.Forall₂ Report.Alike (Report.events (reportsSince verbosity w v))
      (Report.events (reportsSince verbosity' w' v')) := by
  obtain ⟨since, hsince⟩ := h
  obtain ⟨since', hsince'⟩ := h'
  rw [events_reportsSince hsince.symm, events_reportsSince hsince'.symm]
  have hmoments := hw.since hv hsince.symm hsince'.symm
  exact List.rel_filterMap (R := Moment.Alike) (fun _ _ h => Moment.report?_of_alike h)
    (List.forall₂_reverse_iff.mpr hmoments)

theorem overview_of_alike {s s' : State} (h : s.Alike s') : overview s' = overview s := by
  have hpending : ∀ q, (s'.queues.get q).pending = (s.queues.get q).pending :=
    fun q => (h.queues.get q).pending
  unfold overview
  simp only [h.directory.handles, h.directory.batches, h.directory.tables, h.directory.queues,
    h.endpoints, h.transferOf, h.tables, hpending]

/-! ## Steps and transcripts -/

/-- What is told of one command is the same, up to the log and to what a direct request to reset
toggles was answered. -/
structure StepRecord.AlikeFor (command : Command) (r r' : StepRecord) : Prop where
  result : command.ResultsAlike r.result r'.result
  events : List.Forall₂ Report.Alike (Report.events r.reports) (Report.events r'.reports)
  overview : r'.overview = r.overview

/-- What is told of each command is the same. -/
inductive StepsAlike : List Command → List StepRecord → List StepRecord → Prop where
  | nil : StepsAlike [] [] []
  | cons {command : Command} {commands : List Command} {r r' : StepRecord}
      {rest rest' : List StepRecord} (hr : r.AlikeFor command r')
      (hrest : StepsAlike commands rest rest') :
      StepsAlike (command :: commands) (r :: rest) (r' :: rest')

/-- What is told of two sessions is the same. -/
structure Transcript.AlikeFor (commands : List Command) (t t' : Transcript) : Prop where
  steps : StepsAlike commands t.steps t'.steps
  ending : List.Forall₂ Report.Alike (Report.events t.ending) (Report.events t'.ending)

/-- What becomes of alike commands is told alike. -/
theorem settled_alike (limit : Nat) (atHand : Option (Key Batch)) {command command' : Command}
    (h : command.Alike command') :
    Run.Alike command.ResultsAlike (settle (carryOut (player limit) atHand command))
      (settle (carryOut (player limit) atHand command')) :=
  (alike_settled (C := .answers) (player_matches limit) atHand ⟨h, False.elim⟩).mono
    fun _ _ hr => hr.alike

theorem step_alike (hw : w.Alike w') (limit : Nat) {command command' : Command}
    (h : command.Alike command') :
    command.ResultsAlike (step (player limit) command w).1 (step (player limit) command' w').1 ∧
      (step (player limit) command w).2.Alike (step (player limit) command' w').2 := by
  have hend := settled_alike limit none h w w' hw
  unfold step
  generalize settle (carryOut (player limit) none command) w = r,
    settle (carryOut (player limit) none command') w' = r' at hend ⊢
  cases hend with
  | ok ha hv => exact ⟨ha, hv⟩
  | error fault hv => exact ⟨.inl rfl, hv⟩

theorem close_alike (hw : w.Alike w') (limit : Nat) :
    ((close (player limit)).worldAfter w).Alike ((close (player limit)).worldAfter w') := by
  have hend := agree_close (C := .answers) (player_matches limit) w w' hw
  unfold worldAfter
  generalize close (player limit) w = r, close (player limit) w' = r' at hend ⊢
  cases hend with
  | ok _ hv => exact hv
  | error fault hv => exact hv

theorem steps_alike (limit : Nat) (verbosity verbosity' : Verbosity)
    {commands commands' : List Command} (h : Script.Alike commands commands') (hw : w.Alike w')
    (hready : w.Ready Hands.empty) (hready' : w'.Ready Hands.empty) :
    StepsAlike commands (steps (player limit) verbosity commands w).1
        (steps (player limit) verbosity' commands' w').1 ∧
      (steps (player limit) verbosity commands w).2.Alike
        (steps (player limit) verbosity' commands' w').2 ∧
      (steps (player limit) verbosity commands w).2.Ready Hands.empty ∧
      (steps (player limit) verbosity' commands' w').2.Ready Hands.empty := by
  induction h generalizing w w' with
  | nil => exact ⟨.nil, hw, hready, hready'⟩
  | @cons command command' rest rest' hcommand _ ih =>
      obtain ⟨hresult, hv⟩ := step_alike hw limit hcommand
      have hmoves := step_moves hready limit command
      have hmoves' := step_moves hready' limit command'
      obtain ⟨hsteps, hlast⟩ := ih hv (hmoves.ready hready) (hmoves'.ready hready')
      refine ⟨.cons ⟨hresult, ?_, overview_of_alike hv.state⟩ hsteps, hlast⟩
      exact reportsSince_alike hw hv hmoves.suffix hmoves'.suffix verbosity verbosity'

theorem after_alike (limit : Nat) {commands commands' : List Command}
    (h : Script.Alike commands commands') :
    (after limit commands).Alike (after limit commands') := by
  have hfold : ∀ {w w' : World}, w.Alike w' →
      (commands.foldl (fun w command => (step (player limit) command w).2) w).Alike
        (commands'.foldl (fun w command => (step (player limit) command w).2) w') := by
    induction h with
    | nil => exact fun hw => hw
    | cons hcommand _ ih => exact fun hw => ih (step_alike hw limit hcommand).2
  exact hfold .empty

theorem transcript_alike (verbosity verbosity' : Verbosity) {commands commands' : List Command}
    (h : Script.Alike commands commands') :
    (transcript verbosity commands).AlikeFor commands (transcript verbosity' commands') := by
  obtain ⟨hsteps, hw, hready, hready'⟩ :=
    steps_alike scriptLimit verbosity verbosity' h .empty ready_empty ready_empty
  have hending := reportsSince_alike hw (close_alike hw scriptLimit)
    (close_moves hready scriptLimit).suffix (close_moves hready' scriptLimit).suffix verbosity
      verbosity'
  have heq : ∀ (verbosity : Verbosity) (commands : List Command), transcript verbosity commands =
      ⟨(steps (player scriptLimit) verbosity commands .empty).1,
        reportsSince verbosity (steps (player scriptLimit) verbosity commands .empty).2
          ((close (player scriptLimit)).worldAfter
            (steps (player scriptLimit) verbosity commands .empty).2)⟩ := by
    intro verbosity commands
    unfold transcript worldAfter
    simp only
    cases close (player scriptLimit) (steps (player scriptLimit) verbosity commands .empty).2 <;>
      rfl
  rw [heq, heq]
  exact ⟨hsteps, hending⟩

/-- Two sessions that differ at most in answers that are given on a best-effort basis come to
alike worlds, after each of their commands and in the end.  In alike worlds each command has the
same result at whatever depth it is played, unless it asks directly for toggles to be reset; and
besides the log, the transcripts tell the same. -/
theorem answers_unheard (limit : Nat) {commands commands' : List Command}
    (h : Script.Alike commands commands') :
    (after limit commands).Alike (after limit commands') ∧
      ((close (player limit)).worldAfter (after limit commands)).Alike
        ((close (player limit)).worldAfter (after limit commands')) ∧
      (∀ (depth : Nat) (atHand : Option (Key Batch)) (command command' : Command),
        command.Alike command' →
          Run.Alike command.ResultsAlike (settle (carryOut (player depth) atHand command))
            (settle (carryOut (player depth) atHand command'))) ∧
      ∀ verbosity verbosity' : Verbosity,
        (transcript verbosity commands).AlikeFor commands (transcript verbosity' commands') := by
  have hafter := after_alike limit h
  refine ⟨hafter, close_alike hafter limit, fun depth atHand command command' hcommand => ?_,
    fun verbosity verbosity' => transcript_alike verbosity verbosity' h⟩
  exact settled_alike depth atHand hcommand

/-- A bus that looks at toggles when batches go away and flips them when it is to reset them.  How
it answers is left open. -/
def courteousBus (built : BuildReply) (farewell : FarewellReply) (reset : ResetReply) :
    BusPlan Script :=
  ⟨"hcd", false, ⟨[⟨none, built⟩]⟩, ⟨[⟨some [.toggle "f"], farewell⟩]⟩,
    ⟨[⟨some [.advanceToggle "f"], ⟨none, reset⟩⟩]⟩, ⟨[⟨none, farewell⟩]⟩⟩

/-- A batch fails on a bus, which is asked to reset toggles once by name and once when the batch
finishes, and its handler plays a script.  What the bus and the handler answer is left open. -/
def courteousSession (built : BuildReply) (farewell : FarewellReply) (reset : ResetReply)
    (handled : Option UsbError) : List Command :=
  let target : Target := ⟨1, 2, .inbound⟩
  [.addBus "bus" (courteousBus built farewell reset),
    .addEndpoint "bus" ⟨target, .bulk, 64⟩ "e",
    .addEndpoint "bus" ⟨⟨1, 3, .inbound⟩, .bulk, 64⟩ "f",
    .createBatch "e" "b", .releaseHandle "e", .complete "b" (.failed .stall) 0, .resetToggle "b",
    .onComplete "b" ⟨"h", some [.advanceToggle "f"], handled, [], true⟩, .finish "b"]

/-- A bus that declines everything and a content handler, or a bus that answers and a handler that
reports an error: only the results of the direct request and the log differ. -/
theorem answers_unheard_of_courtesy :
    let commands := courteousSession .declined .declined .declined none
    let commands' := courteousSession (.built none) .done (.failed .noToggleReset)
      (some .noToggleReset)
    Script.Alike commands commands' ∧
      (after 1 commands).Alike (after 1 commands') ∧
      (transcript (some .trace) commands).AlikeFor commands (transcript none commands') := by
  have hplan : BusPlan.Alike Script.Alike (courteousBus .declined .declined .declined)
      (courteousBus (.built none) .done (.failed .noToggleReset)) := by
    refine .intro (fun k => ?_) (fun k => ?_) (fun k => ?_) (fun k => ?_) fun k => ?_ <;>
      simp only [Schedule.call?_singleton]
    · exact .plainly trivial trivial
    · exact CodeAlike.refl (some [.toggle "f"])
    · rfl
    · exact CodeAlike.refl (some [.advanceToggle "f"])
    · exact CodeAlike.refl none
  have h : Script.Alike (courteousSession .declined .declined .declined none)
      (courteousSession (.built none) .done (.failed .noToggleReset) (some .noToggleReset)) := by
    refine .cons (.addBus _ hplan) (.cons (.same _) (.cons (.same _) (.cons (.same _)
      (.cons (.same _) (.cons (.same _) (.cons (.same _) (.cons ?_ (.cons (.same _) .nil))))))))
    exact .onComplete _ _ (CodeAlike.refl _) _ _ _ _
  have hunheard := answers_unheard 1 h
  exact ⟨h, hunheard.1, hunheard.2.2.2 _ _⟩

end Session
end UsbTransfer
