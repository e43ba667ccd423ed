import UsbTransfer.Session.CarryOut
import UsbTransfer.Proofs.Storage

/-!
# Commands

Every command is orderly, given a player that is fair, and therefore the players of sessions are
fair: this is shown by induction on the number of scripts that may run inside each other.
-/

namespace UsbTransfer
namespace Session

open Run

variable {play : Player} {hands : Hands} {w : World}

/-- The command is orderly and hands over nothing, and only user code can interrupt it. -/
abbrev Obeys (hands : Hands) (m : Run Result) (w : World) : Prop :=
  Orderly hands Fault.Raised [] (fun _ => []) m w

theorem obeys_pure (r : Result) : Obeys hands (pure r) w :=
  orderly_pure w rfl

/-- An answer is given after an operation. -/
theorem answered {α : Type} {P : Fault → Prop} {give : List Item} {m : Run α}
    (h : Orderly hands P give (fun _ => []) m w) (answer : α → Result) :
    Orderly hands P give (fun _ => []) (m >>= fun a => pure (answer a)) w :=
  h.bind fun _ w' _ => orderly_pure w' rfl

/-! ## Buses and endpoints -/

theorem addBus_obeys (hw : w.Ready hands) (name : String) (plan : BusPlan Script) :
    Obeys hands (addBus name plan) w := by
  have hadd : Moves hands [] [] w
      (w.alter fun s => { s with buses := s.buses.push ⟨name, plan⟩ }) :=
    .addBus _
  have hready := hadd.ready hw
  have hname : Moves hands [] []
      (w.alter fun s => { s with buses := s.buses.push ⟨name, plan⟩ })
      ((w.alter fun s => { s with buses := s.buses.push ⟨name, plan⟩ }).alter
        (·.setDirectory fun d => { d with
          buses := d.buses.insert name w.state.buses.nextKey })) := by
    refine .rename rfl rfl rfl (fun bus hbus => ?_) (List.Sublist.refl _)
      hready.sound.queuesExist
    rcases List.mem_cons.mp (Names.values_insert_subset _ _ _ hbus) with rfl | h
    · simp [Arena.nextKey, Arena.size, Arena.push]
    · exact hready.sound.busesExist bus h
  exact hadd.trans hname

theorem resetOnBus_obeys (hplay : play.Fair) (hw : w.Ready hands) (name : String)
    (target : Target) (scope : ResetScope) :
    Obeys hands (resetOnBus play name target scope) w := by
  unfold Obeys Orderly resetOnBus
  simp only [ensures_bind, ensures_getState, then_ok]
  split
  · exact .refl hands w
  · next bus _ =>
      simp only [ensures_bind]
      apply Ensures.mono (Bus.ensures_resetToggles hplay hw bus none target scope)
      intro r w₁ hr
      obtain ⟨plan, hplan, haccount⟩ := hr
      have hconsult : Moves hands [] [] w _ := .consult hplan
      have hasked := (hconsult.trans (.noteAside (o := .resetRequested bus none target scope)
        .unlocked trivial rfl fun _ => rfl)).trans haccount.moves
      cases r with
      | error fault => exact ⟨hasked, haccount.allowed⟩
      | ok answer =>
          rw [then_ok]
          split <;> exact hasked

/-- A reference that was just taken is kept under a name or released. -/
theorem keepOrRelease_after (hplay : play.Fair) (hw : w.Ready hands) {e : Key Endpoint}
    {w₁ : World} (hmoves : Moves hands [] [.reference e] w w₁) (keep : Option String)
    (r : Result) :
    Ensures (keepOrRelease play keep e) w₁
      (Then (fun _ => pure r) (Account hands Fault.Raised [] (fun _ => []) w)) := by
  exact (ensures_bind _ _ _ _).mp
    ((answered (keepOrRelease_orderly hplay (hmoves.ready hw) keep hmoves.spare_pos)
      fun _ => r).after hmoves)

theorem addEndpoint_obeys (hplay : play.Fair) (hw : w.Ready hands) (busName : String)
    (descriptor : Descriptor) (name : String) :
    Obeys hands (addEndpoint play busName descriptor name) w := by
  unfold Obeys Orderly addEndpoint
  simp only [ensures_bind, ensures_getState, then_ok]
  split
  · exact .refl hands w
  · next bus hfind =>
      have hcreate : Moves hands [] [.reference w.state.endpoints.nextKey] w
          ((w.alter (·.addEndpoint bus descriptor)).note
            (.endpointCreated w.state.endpoints.nextKey)) :=
        .createEndpoint hw.sound (hw.sound.busesExist bus (Names.mem_values_of_find? hfind))
      simp only [ensures_bind, Endpoint.ensures_create, ensures_getState, then_ok]
      exact keepOrRelease_after hplay hw hcreate (some name) _

theorem withEndpoint_obeys (name : String) {act : Key Endpoint → Run Result}
    (hact : ∀ handle, w.state.directory.handles.find? name = some handle →
      Obeys hands (act handle.endpoint) w) :
    Obeys hands (withEndpoint name act) w := by
  unfold Obeys Orderly withEndpoint endpointNamed
  simp only [ensures_bind, ensures_getState, then_ok]
  split
  · exact .refl hands w
  · next handle hfind => exact hact handle hfind

theorem addReference_obeys (hplay : play.Fair) (hw : w.Ready hands) (name copy : String) :
    Obeys hands (addReference play name copy) w := by
  refine withEndpoint_obeys name fun handle hfind => ?_
  have hreferences := hw.sound.references_pos_of_find? hfind
  unfold Obeys Orderly
  rw [ensures_bind, Endpoint.ensures_acquire hreferences]
  simp only [ensures_bind, ensures_getState, then_ok]
  exact keepOrRelease_after hplay hw (.acquire hw.sound .unlocked hreferences) (some copy) _

theorem releaseHandle_obeys (hplay : play.Fair) (hw : w.Ready hands) (name : String) :
    Obeys hands (releaseHandle play name) w := by
  unfold Obeys Orderly releaseHandle
  rw [ensures_bind]
  apply Ensures.mono (ensures_takeHandle hw name)
  intro r w₁ hr
  obtain ⟨answer, rfl, hmoves⟩ := hr
  rw [then_ok]
  cases answer with
  | error mistake => exact hmoves
  | ok e =>
      simp only [ensures_bind]
      exact keepOrRelease_after hplay hw hmoves none _

theorem sameEndpoint_obeys (a b : String) : Obeys hands (sameEndpoint a b) w :=
  withEndpoint_obeys a fun _ _ => withEndpoint_obeys b fun _ _ => obeys_pure _

theorem endpointInfo_obeys (name : String) : Obeys hands (endpointInfo name) w :=
  withEndpoint_obeys name fun _ _ => .refl hands w

theorem endpointText_obeys (name : String) (style : Style) :
    Obeys hands (endpointText name style) w := by
  refine withEndpoint_obeys name fun handle _ => ?_
  cases style <;> exact .refl hands w

theorem referenceCount_obeys (name : String) : Obeys hands (referenceCount name) w :=
  withEndpoint_obeys name fun _ _ => .refl hands w

theorem toggle_obeys (name : String) : Obeys hands (toggle name) w :=
  withEndpoint_obeys name fun _ _ => .refl hands w

theorem setToggle_obeys (name : String) (value : Bool) : Obeys hands (setToggle name value) w :=
  withEndpoint_obeys name fun handle _ => .setToggle handle.endpoint value .unlocked

theorem advanceToggle_obeys (name : String) : Obeys hands (advanceToggle name) w :=
  withEndpoint_obeys name fun handle _ => .advanceToggle handle.endpoint

/-! ## Tables -/

theorem addTable_obeys (hplay : play.Fair) (hw : w.Ready hands) (name : String) :
    Obeys hands (addTable play name) w := by
  have hadd : Moves hands [] [] w (w.alter (·.addTable name)) := .addTable name
  have hready := hadd.ready hw
  unfold Obeys Orderly addTable keepTable
  simp only [ensures_bind, Table.ensures_create, then_ok, ensures_getState,
    ensures_modifyDirectory]
  split
  · exact hadd
  · next replaced hfind =>
      have hmem : replaced ∈ w.state.directory.tables.values := Names.mem_values_of_find? hfind
      have hold : replaced.index < w.state.tables.size := hw.sound.tablesExist _ hmem
      have hunnamed :
          replaced ∉ (w.state.directory.tables.insert name w.state.tables.nextKey).values := by
        intro h
        rcases List.mem_cons.mp ((Names.values_insert_perm _ _ _).mem_iff.mp h) with rfl | h
        · exact Nat.lt_irrefl _ hold
        · exact Names.not_mem_erase_of_find? hw.sound.tablesNodup hfind h
      have hsize : replaced.index < (w.state.addTable name).tables.size := by
        simp only [State.addTable, Arena.size_push]
        exact Nat.lt_succ_of_lt hold
      exact (ensures_bind _ _ _ _).mp
        ((answered (Table.destroy_orderly hplay hready hsize hunnamed) _).after hadd)

theorem withTable_obeys (name : String) {act : Key Table → Run Result}
    (hact : ∀ t, w.state.directory.tables.find? name = some t → Obeys hands (act t) w) :
    Obeys hands (withTable name act) w := by
  unfold Obeys Orderly withTable
  simp only [ensures_bind, ensures_getState, then_ok]
  split
  · exact .refl hands w
  · next t hfind => exact hact t hfind

theorem forgetTable_moves (hw : w.state.Sound) (name : String) :
    Moves hands [] [] w
      (w.alter (·.setDirectory fun d => { d with tables := d.tables.erase name })) :=
  .rename rfl rfl rfl hw.busesExist (Names.values_erase_sublist _ _) hw.queuesExist

/-- A table that loses its name is given up. -/
theorem destroyTable_orderly (hplay : play.Fair) (hw : w.Ready hands) {name : String}
    {t : Key Table} (hfind : w.state.directory.tables.find? name = some t) :
    Orderly hands Fault.Raised [] (fun _ => []) (Table.destroy play t)
      (w.alter (·.setDirectory fun d => { d with tables := d.tables.erase name })) := by
  have hforget : Moves hands [] [] w _ := forgetTable_moves hw.sound name
  exact Table.destroy_orderly hplay (hforget.ready hw)
    (hw.sound.tablesExist t (Names.mem_values_of_find? hfind))
    (Names.not_mem_erase_of_find? hw.sound.tablesNodup hfind)

theorem dropTable_obeys (hplay : play.Fair) (hw : w.Ready hands) (name : String) :
    Obeys hands (dropTable play name) w := by
  refine withTable_obeys name fun t hfind => ?_
  unfold Obeys Orderly
  simp only [ensures_bind, ensures_modifyDirectory, then_ok]
  exact (ensures_bind _ _ _ _).mp
    ((answered (destroyTable_orderly hplay hw hfind) _).after (forgetTable_moves hw.sound name))

theorem register_obeys (hplay : play.Fair) (hw : w.Ready hands) (table name : String) :
    Obeys hands (register play table name) w := by
  refine withTable_obeys table fun t hfind => ?_
  unfold Obeys Orderly
  rw [ensures_bind]
  apply Ensures.mono ((ensures_takeHandle hw name).and (ensures_takeHandle_tables name))
  rintro r w₁ ⟨⟨answer, rfl, hmoves⟩, htables⟩
  rw [then_ok]
  cases answer with
  | error mistake => exact hmoves
  | ok e =>
      have hready := hmoves.ready hw
      have hnamed : t ∈ w₁.state.directory.tables.values :=
        htables ▸ Names.mem_values_of_find? hfind
      refine Orderly.after hmoves
        ((Table.register_orderly hplay hready hnamed (Moves.spare_pos hmoves)).bind
          fun answer w' _ => ?_)
      cases answer <;> exact obeys_pure _

theorem find_obeys (hplay : play.Fair) (hw : w.Ready hands) (table : String) (target : Target)
    (keep : Option String) :
    Obeys hands (find play table target keep) w := by
  refine withTable_obeys table fun t _ => ?_
  unfold Obeys Orderly
  rw [ensures_bind]
  refine Ensures.mono (Table.find?_orderly hw target) fun r w₁ hr => ?_
  cases r with
  | error fault => exact hr
  | ok found =>
      rw [then_ok]
      cases found with
      | none => exact hr
      | some e =>
          simp only [ensures_bind, ensures_getState, then_ok]
          exact keepOrRelease_after hplay hw hr keep _

theorem remove_obeys (hplay : play.Fair) (hw : w.Ready hands) (table : String)
    (target : Target) (keep : Option String) :
    Obeys hands (remove play table target keep) w := by
  refine withTable_obeys table fun t _ => ?_
  unfold Obeys Orderly
  rw [ensures_bind]
  apply Ensures.mono (Table.remove_orderly hw target)
  intro r w₁ hr
  cases r with
  | error fault => exact hr
  | ok answer =>
      rw [then_ok]
      cases answer with
      | error error => exact hr
      | ok e =>
          simp only [ensures_bind, ensures_getState, then_ok]
          exact keepOrRelease_after hplay hw hr keep _

theorem removeDevice_obeys (hplay : play.Fair) (hw : w.Ready hands) (table : String)
    (address : UInt8) (keep : Option String) :
    Obeys hands (removeDevice play table address keep) w := by
  refine withTable_obeys table fun t _ => ?_
  unfold Obeys Orderly
  rw [ensures_bind]
  apply Ensures.mono (Table.removeDevice_orderly hw address)
  intro r w₁ hr
  cases r with
  | error fault => exact hr
  | ok es =>
      have hready := hr.ready hw
      have hspare := Moves.spare_taken hr
      simp only [then_ok, ensures_bind, ensures_getState]
      cases keep with
      | some stem =>
          exact (answered (keepHandles_orderly hplay stem 0 hready hspare) _).after hr
      | none => exact (answered (Endpoint.releaseAll_orderly hplay hready hspare) _).after hr

theorem resetTable_obeys (hw : w.Ready hands) (table : String) (target : Target)
    (scope : ResetScope) :
    Obeys hands (resetTable table target scope) w :=
  withTable_obeys table fun _ _ => answered (Table.resetToggles_orderly hw target scope) _

theorem tableSize_obeys (hw : w.Ready hands) (table : String) :
    Obeys hands (tableSize table) w := by
  refine withTable_obeys table fun t _ => ?_
  unfold Obeys Orderly
  rw [ensures_bind]
  exact Table.ensures_size (hw.sound.tablesFree t) (Moves.refl hands w)

/-! ## Queues -/

theorem addQueue_obeys (hw : w.Ready hands) (name : String) :
    Obeys hands (addQueue name) w := by
  have hadd : Moves hands [] []
      w (w.alter fun s => { s with queues := s.queues.push default }) := .addQueue
  have hready := hadd.ready hw
  unfold Obeys Orderly addQueue keepQueue
  simp only [ensures_bind, Queue.ensures_create, then_ok, ensures_modifyDirectory, ensures_pure]
  refine hadd.trans (.rename rfl rfl rfl hready.sound.busesExist (List.Sublist.refl _)
    fun q hq => ?_)
  rcases List.mem_cons.mp (Names.values_insert_subset _ _ _ hq) with rfl | h
  · simp [Arena.nextKey, Arena.size, Arena.push]
  · exact hready.sound.queuesExist q h

theorem withQueue_obeys (hw : w.Ready hands) (name : String) {act : Key Queue → Run Result}
    (hact : ∀ q, q.index < w.state.queues.size → Obeys hands (act q) w) :
    Obeys hands (withQueue name act) w := by
  unfold Obeys Orderly withQueue
  simp only [ensures_bind, ensures_getState, then_ok]
  split
  · exact .refl hands w
  · next q hfind => exact hact q (hw.sound.queuesExist q (Names.mem_values_of_find? hfind))

theorem shareQueue_obeys (hw : w.Ready hands) (queue name : String) :
    Obeys hands (shareQueue queue name) w := by
  refine withQueue_obeys hw queue fun q hq => ?_
  unfold Obeys Orderly keepQueue
  simp only [ensures_bind, ensures_modifyDirectory, then_ok, ensures_pure]
  refine .rename rfl rfl rfl hw.sound.busesExist (List.Sublist.refl _) fun q' hq' => ?_
  rcases List.mem_cons.mp (Names.values_insert_subset _ _ _ hq') with rfl | h
  · exact hq
  · exact hw.sound.queuesExist q' h

theorem forgetQueue_moves (hw : w.state.Sound) (name : String) :
    Moves hands [] [] w
      (w.alter (·.setDirectory fun d => { d with queues := d.queues.erase name })) :=
  .rename rfl rfl rfl hw.busesExist (List.Sublist.refl _)
    fun q hq => hw.queuesExist q (Names.values_erase_subset _ _ hq)

theorem dropQueue_obeys (hw : w.Ready hands) (queue : String) :
    Obeys hands (dropQueue queue) w :=
  withQueue_obeys hw queue fun _ _ => forgetQueue_moves hw.sound queue

theorem push_obeys (hplay : play.Fair) (hw : w.Ready hands) (queue : String) (c : Completion) :
    Obeys hands (push play queue c) w :=
  withQueue_obeys hw queue fun _ hq => answered (Queue.push_orderly hplay hw hq c) _

/-- Taking the next completion hands over nothing, whatever is done with it. -/
theorem next?_obeys (hw : w.Ready hands) (q : Key Queue)
    {answer : Option Completion → Run Result} (hanswer : ∀ c?, ∃ r, answer c? = pure r) :
    Obeys hands (Queue.next? q >>= answer) w := by
  unfold Obeys Orderly
  rw [ensures_bind]
  apply Ensures.mono (Queue.ensures_next? hw)
  intro r w₁ hr
  obtain ⟨found, rfl, hmoves, -⟩ := hr
  obtain ⟨result, hresult⟩ := hanswer found
  rw [then_ok, hresult]
  exact hmoves

theorem tryNext_obeys (hw : w.Ready hands) (queue : String) :
    Obeys hands (tryNext queue) w := by
  refine withQueue_obeys hw queue fun q _ => next?_obeys hw q fun c? => ?_
  cases c? <;> exact ⟨_, rfl⟩

theorem nextText_obeys (hw : w.Ready hands) (queue : String) (style : Style) :
    Obeys hands (nextText queue style) w := by
  refine withQueue_obeys hw queue fun q _ => next?_obeys hw q fun c? => ?_
  cases c? <;> cases style <;> exact ⟨_, rfl⟩

theorem queueSize_obeys (hw : w.Ready hands) (queue : String) :
    Obeys hands (queueSize queue) w := by
  refine withQueue_obeys hw queue fun q _ => ?_
  unfold Obeys Orderly
  rw [ensures_bind]
  exact Queue.ensures_size (hw.sound.queuesFree q) (Moves.refl hands w)

theorem addWaker_obeys (hw : w.Ready hands) (name : String) (code : Option Script) :
    Obeys hands (addWaker name code) w := by
  have hname : Moves hands [] [] w
      (w.alter (·.setDirectory fun d => { d with wakers := d.wakers.insert name ⟨name, code⟩ })) :=
    .rename rfl rfl rfl hw.sound.busesExist (List.Sublist.refl _) hw.sound.queuesExist
  exact hname

/-- The ways to wait differ only in how they answer. -/
theorem pollOnce_obeys {q : Key Queue} {waker : Waker} {meanwhile : Run Unit}
    (h : Orderly hands Fault.Raised [] (fun _ => []) (Queue.poll q waker meanwhile) w)
    (route : PollRoute) :
    Obeys hands (pollOnce q route waker meanwhile) w := by
  have hstream : Orderly hands Fault.Raised [] (fun _ => [])
      (Queue.pollStream q waker meanwhile) w := h.bind fun _ w' _ => orderly_pure w' rfl
  cases route with
  | direct | future =>
      refine h.bind fun answer _ _ => ?_
      cases answer <;> exact obeys_pure _
  | stream =>
      refine hstream.bind fun answer _ _ => ?_
      cases answer with
      | pending => exact obeys_pure _
      | ready c? => cases c? <;> exact obeys_pure _

theorem poll_obeys (hw : w.Ready hands) (queue : String) (route : PollRoute) (waker : String) :
    Obeys hands (poll queue route waker) w := by
  refine withQueue_obeys hw queue fun q hq => ?_
  unfold Obeys Orderly
  simp only [ensures_bind, ensures_getState, then_ok]
  split
  · exact .refl hands w
  · refine pollOnce_obeys (Queue.poll_orderly hw (fun w' _ _ hwaker => ?_) hq) route
    exact ⟨Moves.refl hands w', fun _ => hwaker⟩

/-- Whoever polls while a completion is pushed is woken at once, and finds that completion. -/
theorem pollRacing_obeys (hplay : play.Fair) (hw : w.Ready hands) (queue : String)
    (route : PollRoute) (pushed : Completion) :
    Obeys hands (pollRacing play queue route pushed) w := by
  refine withQueue_obeys hw queue fun q hq => ?_
  refine pollOnce_obeys (Queue.poll_orderly hw (fun w' hw' hpending hwaker => ?_) hq) route
  have hq' : q.index < w'.state.queues.size := State.index_lt_of_waker hwaker
  refine (Queue.push_orderly hplay hw' hq' pushed).and ?_
  have hpushed : ((w'.state.setQueue q fun queue =>
      { queue with pending := queue.pending ++ [pushed] }).queues.get q) =
        { w'.state.queues.get q with pending := [pushed] } := by
    simp only [State.setQueue]
    rw [Arena.get_modify_self _ _ _ hq', hpending, List.nil_append]
  have hwaiting : ((w'.state.setQueue q fun queue =>
      { queue with pending := queue.pending ++ [pushed] }).queues.get q).waker =
        some racingWaker := by
    rw [hpushed]
    exact hwaker
  have hleft : (((w'.state.setQueue q fun queue =>
      { queue with pending := queue.pending ++ [pushed] }).setQueue q fun queue =>
        { queue with waker := none }).queues.get q).pending = [pushed] :=
    (Arena.apply_get_modify _ q q (fun queue => { queue with waker := none }) Queue.pending
      fun _ => rfl).trans (congrArg Queue.pending hpushed)
  refine Queue.ensures_push (hw'.sound.queuesFree q)
    (Queue.ensures_wake_of_some hwaiting fun hempty => ?_)
  exact absurd (hleft.symm.trans hempty) (List.cons_ne_nil _ _)

end Session
end UsbTransfer
