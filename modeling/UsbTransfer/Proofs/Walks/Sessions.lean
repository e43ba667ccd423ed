import UsbTransfer.Proofs.Sessions
import UsbTransfer.Proofs.Walks.Batches

/-!
# Walks through sessions

Commands are put together in plain ways from what the library does.  Most of them are carried out
by the steps by which the library and the batches go.  With the commands that begin and end batches
the players of sessions go by such steps, and so do the sessions themselves.
-/

namespace UsbTransfer

open Run

variable {R : World → World → Prop} {A : Repertoire} {play : Player} {b : Key Batch}

/-- The player carries out scripts of the repertoire by steps of the relation. -/
def Player.GoesBy (play : Player) (R : World → World → Prop) (A : Repertoire) : Prop :=
  ∀ atHand script, A.Plays script → Follows R (play atHand script)

theorem Player.GoesBy.run (hplay : play.GoesBy R A) (atHand : Option (Key Batch))
    {code : Option Script} (hcode : A.PlaysAny code) :
    Follows R (play.run atHand code) := by
  cases code with
  | none => exact follows_pure ()
  | some script => exact hplay atHand script (hcode script rfl)

/-! ## Objects by their names -/

namespace Session

theorem follows_withEndpoint (name : String) {act : Key Endpoint → Run Result}
    (hact : ∀ e, Follows R (act e)) :
    Follows R (withEndpoint name act) := by
  have hnamed : Follows R (endpointNamed name) := by
    refine follows_getState_bind fun s => ?_
    split <;> exact follows_pure _
  refine hnamed.bind fun answer => ?_
  cases answer with
  | error mistake => exact follows_pure _
  | ok e => exact hact e

theorem follows_withTable (name : String) {act : Key Table → Run Result}
    (hact : ∀ t, Follows R (act t)) :
    Follows R (withTable name act) := by
  refine follows_getState_bind fun s => ?_
  split
  · exact follows_pure _
  · exact hact _

theorem follows_withQueue (name : String) {act : Key Queue → Run Result}
    (hact : ∀ q, Follows R (act q)) :
    Follows R (withQueue name act) := by
  refine follows_getState_bind fun s => ?_
  split
  · exact follows_pure _
  · exact hact _

/-- What is only looked at stays as it is. -/
theorem follows_answer {α : Type} (answer : State → α) :
    Follows R (do return answer (← getState)) :=
  follows_getState_bind fun _ => follows_pure _

/-- What polls a queue once does nothing more to the world. -/
theorem follows_pollOnce {q : Key Queue} {waker : Waker} {meanwhile : Run Unit}
    (h : Follows R (Queue.poll q waker meanwhile)) (route : PollRoute) :
    Follows R (pollOnce q route waker meanwhile) := by
  have hstream : Follows R (Queue.pollStream q waker meanwhile) := h.bind fun _ => follows_pure _
  cases route with
  | direct | future =>
      refine h.bind fun answer => ?_
      cases answer <;> exact follows_pure _
  | stream =>
      refine hstream.bind fun answer => ?_
      cases answer with
      | pending => exact follows_pure _
      | ready c? => cases c? <;> exact follows_pure _

theorem follows_settle {m : Run Result} (hm : Follows R m) : Follows R (settle m) := by
  refine hm.attempt.bind fun r => ?_
  cases r <;> exact follows_pure _

end Session

/-! ## Commands on endpoints, tables and queues -/

namespace LibraryWalk

open Session

theorem addBus (h : LibraryWalk R A AnyToggleEvent play) {name : String} {plan : BusPlan Script}
    (hhas : A.Has (.addBus name plan)) :
    Follows R (Session.addBus name plan) :=
  fun _ => h.step (.addBus name (A.closed hhas))

theorem resetNamed (h : LibraryWalk R A AnyToggleEvent play) (name : String) (target : Target)
    (scope : ResetScope) :
    Follows R (Session.resetOnBus play name target scope) := by
  refine follows_getState_bind fun s => ?_
  split
  · exact follows_pure _
  · refine (h.resetOnBus (fun _ _ => trivial) _ none target scope).bind fun answer? => ?_
    split <;> exact follows_pure _

theorem addEndpoint (h : LibraryWalk R A AnyToggleEvent play) (busName : String)
    (descriptor : Descriptor) (name : String) :
    Follows R (Session.addEndpoint play busName descriptor name) := by
  refine follows_getState_bind fun s => ?_
  split
  · exact follows_pure _
  · refine (h.createEndpoint (fun _ => trivial) _ descriptor).bind fun e => ?_
    exact follows_getState_bind fun s => (h.keepHandle name e).bind fun _ => follows_pure _

theorem addReference (h : LibraryWalk R A AnyToggleEvent play) (name copy : String) :
    Follows R (Session.addReference play name copy) :=
  follows_withEndpoint name fun e => (h.acquire e).bind fun _ => follows_getState_bind fun _ =>
    (h.keepHandle copy e).bind fun _ => follows_pure _

theorem releaseHandle (h : LibraryWalk R A AnyToggleEvent play) (name : String) :
    Follows R (Session.releaseHandle play name) := by
  refine (h.takeHandle name).bind fun answer => ?_
  cases answer with
  | error mistake => exact follows_pure _
  | ok e => exact (h.release e).bind fun _ => follows_pure _

theorem endpointText (name : String) (style : Style) :
    Follows R (Session.endpointText name style) := by
  refine follows_withEndpoint name fun e => follows_getState_bind fun s => ?_
  cases style <;> exact follows_pure _

theorem dropTable (h : LibraryWalk R A AnyToggleEvent play) (name : String) :
    Follows R (Session.dropTable play name) := by
  refine follows_withTable name fun t => ?_
  refine Follows.bind (h.modifyDirectory (fun _ => rfl) fun _ => rfl) fun _ => ?_
  exact (h.destroyTable t).bind fun _ => follows_pure _

theorem registerNamed (h : LibraryWalk R A AnyToggleEvent play) (table name : String) :
    Follows R (Session.register play table name) := by
  refine follows_withTable table fun t => (h.takeHandle name).bind fun answer => ?_
  cases answer with
  | error mistake => exact follows_pure _
  | ok e =>
      refine (h.register t e).bind fun answer => ?_
      cases answer <;> exact follows_pure _

theorem findNamed (h : LibraryWalk R A AnyToggleEvent play) (table : String) (target : Target)
    (keep : Option String) :
    Follows R (Session.find play table target keep) := by
  refine follows_withTable table fun t => (h.find t target).bind fun found? => ?_
  cases found? with
  | none => exact follows_pure _
  | some e =>
      exact follows_getState_bind fun s => (h.keepOrRelease keep e).bind fun _ => follows_pure _

theorem removeNamed (h : LibraryWalk R A AnyToggleEvent play) (table : String) (target : Target)
    (keep : Option String) :
    Follows R (Session.remove play table target keep) := by
  refine follows_withTable table fun t => (h.remove t target).bind fun answer => ?_
  cases answer with
  | error error => exact follows_pure _
  | ok e =>
      exact follows_getState_bind fun s => (h.keepOrRelease keep e).bind fun _ => follows_pure _

theorem removeDeviceNamed (h : LibraryWalk R A AnyToggleEvent play) (table : String)
    (address : UInt8)
    (keep : Option String) :
    Follows R (Session.removeDevice play table address keep) := by
  refine follows_withTable table fun t => (h.removeDevice t address).bind fun es => ?_
  refine follows_getState_bind fun s => ?_
  cases keep with
  | some stem => exact (h.keepHandles stem es 0).bind fun _ => follows_pure _
  | none => exact (h.releaseAll es).bind fun _ => follows_pure _

theorem nextNamed (h : LibraryWalk R A AnyToggleEvent play) (queue : String)
    {answer : Option Completion → Run Result} (hanswer : ∀ c?, ∃ r, answer c? = pure r) :
    Follows R (withQueue queue fun q => Queue.next? q >>= answer) := by
  refine follows_withQueue queue fun q => (h.next q).bind fun c? => ?_
  obtain ⟨r, hr⟩ := hanswer c?
  rw [hr]
  exact follows_pure r

theorem addWaker (h : LibraryWalk R A AnyToggleEvent play) {name : String} {code : Option Script}
    (hhas : A.Has (.addWaker name code)) :
    Follows R (Session.addWaker name code) := by
  have hplays : A.PlaysAny (Waker.mk name code).code := fun script hcode =>
    A.closed hhas script (Option.mem_toList.mpr hcode)
  exact fun _ => h.step (.addWaker name hplays)

theorem pollNamed (h : LibraryWalk R A AnyToggleEvent play) (queue : String) (route : PollRoute)
    (waker : String) :
    Follows R (Session.poll queue route waker) := by
  refine follows_withQueue queue fun q => h.known fun w hw => ?_
  rw [ensures_bind, ensures_getState, then_ok]
  split
  · exact .refl
  · next found hfind =>
      exact follows_pollOnce (h.poll q (hw.wakers found (Names.mem_values_of_find? hfind))) route w

end LibraryWalk

/-! ## Batches in use -/

/-- Whoever uses a batch, and the library meanwhile, goes by steps of the relation. -/
structure BatchUse (R : World → World → Prop) (A : Repertoire) (play : Player) (b : Key Batch) :
    Prop extends LibraryWalk R A AnyToggleEvent play where
  modifyTransfer : ∀ f, Follows R (Batch.modifyTransfer b f)
  attachHandler : ∀ {action : HandlerAction} captured noisy, A.PlaysAny action.code? →
    Follows R (Batch.attachHandler play b action captured noisy)
  attachData : ∀ value, Follows R (Batch.attachData play b value)
  changeData : ∀ change, Follows R (Session.changeData b change)
  takeData : ∀ type keep, Follows R (Session.takeData play b type keep)

namespace BatchUse

open Session

theorem batchText (b : Key Batch) (style : Style) : Follows R (Session.batchText b style) := by
  refine follows_getState_bind fun s => ?_
  cases style <;> exact follows_pure _

theorem batchEndpoint (h : BatchUse R A play b) (keep : Option String) :
    Follows R (Session.batchEndpoint play b keep) := by
  refine follows_getState_bind fun s => ?_
  split
  · exact follows_pure _
  · next e _ =>
      refine (h.acquire e).bind fun _ => follows_getState_bind fun s => ?_
      exact (h.keepOrRelease keep e).bind fun _ => follows_pure _

theorem batchIsOn (b : Key Batch) (handle : String) :
    Follows R (Session.batchIsOn b handle) := by
  refine follows_withEndpoint handle fun e => follows_getState_bind fun s => ?_
  split <;> exact follows_pure _

theorem changeTransfer (h : BatchUse R A play b) (f : Transfer → Transfer) :
    Follows R (Session.changeTransfer b f) :=
  (h.modifyTransfer f).bind fun _ => follows_pure _

theorem allocBuffer (h : BatchUse R A play b) (length : Nat) (granted : Bool) :
    Follows R (Session.allocBuffer b length granted) := by
  refine (h.toLibraryWalk.allocBuffer h.modifyTransfer length granted).bind fun answer => ?_
  cases answer <;> exact follows_pure _

theorem write (h : BatchUse R A play b) (start : Nat) (bytes : List UInt8) :
    Follows R (Session.write b start bytes) := by
  refine follows_getState_bind fun s => ?_
  split
  · exact follows_pure _
  · exact h.changeTransfer _

theorem resetToggle (h : BatchUse R A play b) : Follows R (Session.resetToggle play b) := by
  refine (h.resetOfBatch (fun _ _ => trivial) b).bind fun answer => ?_
  cases answer <;> exact follows_pure _

theorem onComplete (h : BatchUse R A play b) {batch : String} {handler : HandlerSpec Script}
    (hhas : A.Has (.onComplete batch handler)) :
    Follows R (Session.onComplete play b handler) := by
  have hplays : A.PlaysAny
      (HandlerAction.run handler.name handler.code handler.reply).code? := fun script hcode =>
    A.closed hhas script (Option.mem_toList.mpr hcode)
  refine (h.takeHandles handler.captured []).bind fun answer => ?_
  cases answer with
  | error mistake => exact follows_pure _
  | ok captured =>
      exact (h.attachHandler captured handler.noisy hplays).bind fun _ => follows_pure _

theorem toQueue (h : BatchUse R A play b) (queue : String) :
    Follows R (Session.toQueue play b queue) := by
  refine follows_getState_bind fun s => ?_
  split
  · exact follows_pure _
  · next q _ =>
      have hplays : A.PlaysAny (HandlerAction.forward q).code? := A.playsAny_none
      exact (h.attachHandler [] false hplays).bind fun _ => follows_pure _

theorem setData (h : BatchUse R A play b) (spec : DataSpec) :
    Follows R (Session.setData play b spec) := by
  have hvalue : Follows R (takeValue spec) := by
    cases spec with
    | number | text | noisy => exact follows_pure _
    | handle name =>
        refine (h.takeHandle name).bind fun answer => ?_
        cases answer <;> exact follows_pure _
  refine hvalue.bind fun answer => ?_
  cases answer with
  | error mistake => exact follows_pure _
  | ok value => exact (h.attachData value).bind fun _ => follows_pure _

theorem getData (b : Key Batch) (type : DataType) : Follows R (Session.getData b type) := by
  refine follows_getState_bind fun s => ?_
  split <;> exact follows_pure _

end BatchUse

/-! ## All commands -/

/-- The command begins or ends a batch. -/
def Command.Lifecycle : Command → Prop
  | .createBatch _ _ | .newBatch _ _ | .finish _ | .abort _ | .destroy _ => True
  | _ => False

namespace LibraryWalk

open Session

/-- All commands but those that begin or end batches go by the steps by which the library goes, and
by those by which batches are used. -/
theorem carryOut (h : LibraryWalk R A AnyToggleEvent play)
    {S : Key Batch → World → World → Prop} (huse : ∀ b, BatchUse (S b) A play b)
    (atHand : Option (Key Batch))
    (honBatch : ∀ (name : String) {act : Key Batch → Run Result},
      (∀ b, Follows (S b) (act b)) → Follows R (Session.onBatch play atHand name act))
    {command : Command} (hhas : A.Has command)
    (hlifecycle : command.Lifecycle → Follows R (Session.carryOut play atHand command)) :
    Follows R (Session.carryOut play atHand command) := by
  have hkeepQueue : ∀ name q, Follows R (Session.keepQueue name q) :=
    fun _ _ => h.modifyDirectory (fun _ => rfl) fun _ => rfl
  cases command with
  | addBus name plan => exact h.addBus hhas
  | resetOnBus bus target scope => exact h.resetNamed bus target scope
  | addEndpoint bus descriptor handle => exact h.addEndpoint bus descriptor handle
  | addReference handle copy => exact h.addReference handle copy
  | releaseHandle handle => exact h.releaseHandle handle
  | sameEndpoint a b =>
      exact follows_withEndpoint a fun _ => follows_withEndpoint b fun _ => follows_pure _
  | endpointInfo handle | referenceCount handle | toggle handle =>
      exact follows_withEndpoint handle fun _ => follows_answer _
  | endpointText handle style => exact endpointText handle style
  | setToggle handle value =>
      exact follows_withEndpoint handle fun e => (h.setToggle trivial).bind fun _ => follows_pure _
  | advanceToggle handle =>
      exact follows_withEndpoint handle fun e =>
        (h.advanceToggle trivial).bind fun _ => follows_pure _
  | addTable name =>
      exact h.createTable.bind fun t => (h.keepTable name t).bind fun _ => follows_pure _
  | dropTable table => exact h.dropTable table
  | register table handle => exact h.registerNamed table handle
  | find table target keep => exact h.findNamed table target keep
  | remove table target keep => exact h.removeNamed table target keep
  | removeDevice table address keep => exact h.removeDeviceNamed table address keep
  | resetTable table target scope =>
      exact follows_withTable table fun t =>
        (h.resetTable (fun _ => trivial) target scope).bind fun _ => follows_pure _
  | tableSize table =>
      exact follows_withTable table fun t => (h.tableSize t).bind fun _ => follows_pure _
  | batchInfo batch => exact honBatch batch fun b => follows_answer _
  | batchText batch style => exact honBatch batch fun b => BatchUse.batchText b style
  | batchEndpoint batch keep => exact honBatch batch fun b => (huse b).batchEndpoint keep
  | batchIsOn batch handle => exact honBatch batch fun b => BatchUse.batchIsOn b handle
  | setScope batch | setBuffer batch | complete batch =>
      exact honBatch batch fun b => (huse b).changeTransfer _
  | setSetup batch | schedule batch =>
      exact honBatch batch fun b =>
        (Batch.follows_edit (huse b).modifyTransfer _).bind fun _ => follows_pure _
  | allocBuffer batch length granted =>
      exact honBatch batch fun b => (huse b).allocBuffer length granted
  | write batch start bytes => exact honBatch batch fun b => (huse b).write start bytes
  | resetToggle batch => exact honBatch batch fun b => (huse b).resetToggle
  | onComplete batch handler => exact honBatch batch fun b => (huse b).onComplete hhas
  | toQueue batch queue => exact honBatch batch fun b => (huse b).toQueue queue
  | setData batch value => exact honBatch batch fun b => (huse b).setData value
  | getData batch type => exact honBatch batch fun b => BatchUse.getData b type
  | changeData batch change => exact honBatch batch fun b => (huse b).changeData change
  | takeData batch type keep => exact honBatch batch fun b => (huse b).takeData type keep
  | addQueue name =>
      exact h.createQueue.bind fun q => (hkeepQueue name q).bind fun _ => follows_pure _
  | shareQueue queue name =>
      exact follows_withQueue queue fun q => (hkeepQueue name q).bind fun _ => follows_pure _
  | dropQueue queue =>
      exact follows_withQueue queue fun q =>
        Follows.bind (h.modifyDirectory (fun _ => rfl) fun _ => rfl) fun _ => follows_pure _
  | push queue completion =>
      exact follows_withQueue queue fun q => (h.push q completion).bind fun _ => follows_pure _
  | tryNext queue =>
      refine h.nextNamed queue fun c? => ?_
      cases c? <;> exact ⟨_, rfl⟩
  | nextText queue style =>
      refine h.nextNamed queue fun c? => ?_
      cases c? <;> cases style <;> exact ⟨_, rfl⟩
  | queueSize queue =>
      exact follows_withQueue queue fun q => (queueSize q).bind fun _ => follows_pure _
  | addWaker name code => exact h.addWaker hhas
  | poll queue route waker => exact h.pollNamed queue route waker
  | pollRacing queue route pushed =>
      exact follows_withQueue queue fun q =>
        follows_pollOnce (h.pollRacing q hhas) route
  | raise message => exact follows_throw _
  | unreadable mistake => exact follows_pure _
  | createBatch | newBatch | finish | abort | destroy => exact hlifecycle trivial

/-! ## The end of a session -/

theorem contain (h : LibraryWalk R A AnyToggleEvent play) {m : Run Unit} (hm : Follows R m) :
    Follows R (Session.contain m) := by
  refine hm.attempt.bind fun r => ?_
  cases r with
  | ok _ => exact follows_pure ()
  | error fault => exact h.record trivial

theorem releaseEach (h : LibraryWalk R A AnyToggleEvent play) {first? : Directory → Option String}
    {releaseNamed : String → Run Unit} (hrelease : ∀ name, Follows R (releaseNamed name))
    (limit : Nat) :
    Follows R (Session.releaseEach first? releaseNamed limit) := by
  induction limit with
  | zero => exact follows_pure ()
  | succ limit ih =>
      refine follows_getState_bind fun s => ?_
      split
      · exact follows_pure ()
      · exact (h.contain (hrelease _)).bind fun _ => ih

/-- Apart from batches, what is released in the end is released by the steps by which the library
goes. -/
theorem close (h : LibraryWalk R A AnyToggleEvent play)
    (hbatch : ∀ name, Follows R (Session.forgetBatch play name)) :
    Follows R (Session.close play) := by
  have hhandle : ∀ name, Follows R (Session.forgetHandle play name) := by
    refine fun name => (h.takeHandle name).bind fun answer => ?_
    cases answer with
    | error mistake => exact follows_pure ()
    | ok e => exact h.release e
  have htable : ∀ name, Follows R (Session.forgetTable play name) := by
    refine fun name => follows_getState_bind fun s => ?_
    split
    · exact follows_pure ()
    · exact Follows.bind (h.modifyDirectory (fun _ => rfl) fun _ => rfl) fun _ =>
        h.destroyTable _
  have hqueue : ∀ name, Follows R (Session.forgetQueue name) :=
    fun _ => h.modifyDirectory (fun _ => rfl) fun _ => rfl
  refine (h.releaseEach hbatch _).bind fun _ => (h.releaseEach hhandle _).bind fun _ => ?_
  exact (h.releaseEach htable _).bind fun _ => h.releaseEach hqueue _

end LibraryWalk

/-! ## Batches by their names -/

namespace SessionWalk

open Session

theorem keepBatch (h : SessionWalk R A AnyToggleEvent play) (name : String) (b : Key Batch) :
    Follows R (Session.keepBatch play name b) := by
  refine follows_getState_bind fun s => (h.rename fun names => names.insert name b).bind fun _ => ?_
  split
  · exact follows_pure ()
  · exact h.drop _

theorem takeBatch (h : SessionWalk R A AnyToggleEvent play) (name : String) :
    Follows R (Session.takeBatch name) := by
  refine follows_getState_bind fun s => ?_
  split
  · exact follows_pure _
  · exact (h.rename fun names => names.erase name).bind fun _ => follows_pure _

theorem onBatch (h : SessionWalk R A AnyToggleEvent play) (atHand : Option (Key Batch))
    (name : String)
    {act : Key Batch → Run Result} (hact : ∀ b, Follows R (act b)) :
    Follows R (Session.onBatch play atHand name act) := by
  unfold Session.onBatch
  split
  · exact hact _
  · refine (h.takeBatch name).bind fun answer => ?_
    cases answer with
    | error mistake => exact follows_pure _
    | ok b => exact (hact b).ensuring (h.keepBatch name b)

theorem endBatch (h : SessionWalk R A AnyToggleEvent play) (name : String)
    {ending : Key Batch → Run Unit} (hending : ∀ b, Follows R (ending b)) :
    Follows R (Session.endBatch name ending) := by
  refine (h.takeBatch name).bind fun answer => ?_
  cases answer with
  | error mistake => exact follows_pure _
  | ok b => exact (hending b).bind fun _ => follows_pure _

theorem createBatch (h : SessionWalk R A AnyToggleEvent play) (handle name : String) :
    Follows R (Session.createBatch play handle name) := by
  refine follows_getState_bind fun s => ?_
  split
  · exact follows_pure _
  · next found _ =>
      refine h.lending found ((h.create found.endpoint).bind fun answer => ?_)
      cases answer with
      | error error => exact follows_pure _
      | ok b =>
          exact follows_getState_bind fun s => (h.keepBatch name b).bind fun _ => follows_pure _

theorem newBatch (h : SessionWalk R A AnyToggleEvent play) (handle name : String) :
    Follows R (Session.newBatch play handle name) := by
  refine follows_withEndpoint handle fun e => (h.build e).bind fun b => ?_
  exact follows_getState_bind fun s => (h.keepBatch name b).bind fun _ => follows_pure _

theorem use (h : SessionWalk R A AnyToggleEvent play) (b : Key Batch) : BatchUse R A play b where
  toLibraryWalk := h.toLibraryWalk
  modifyTransfer := h.modifyTransfer b
  attachHandler := h.attachHandler b
  attachData := h.attachData b
  changeData := h.changeData b
  takeData := h.takeData b

theorem carryOut (h : SessionWalk R A AnyToggleEvent play) (atHand : Option (Key Batch))
    {command : Command} (hhas : A.Has command) :
    Follows R (Session.carryOut play atHand command) := by
  have hkind : ∀ t es, AnyToggleEvent (.reset t es) := fun _ _ => trivial
  refine h.toLibraryWalk.carryOut h.use atHand (fun name _ hact => h.onBatch atHand name hact) hhas
    fun hlifecycle => ?_
  cases command with
  | createBatch handle batch => exact h.createBatch handle batch
  | newBatch handle batch => exact h.newBatch handle batch
  | finish batch => exact h.endBatch batch (h.finish hkind)
  | abort batch => exact h.endBatch batch (h.abort hkind)
  | destroy batch => exact h.endBatch batch h.destroy
  | _ => exact hlifecycle.elim

theorem playCommand (h : SessionWalk R A AnyToggleEvent play) (atHand : Option (Key Batch))
    {command : Command} (hhas : A.Has command) :
    Follows R (Session.playCommand play atHand command) := by
  unfold Session.playCommand
  split
  · exact follows_throw _
  · exact (follows_settle (h.carryOut atHand hhas)).bind fun _ => h.record trivial

theorem close (h : SessionWalk R A AnyToggleEvent play) : Follows R (Session.close play) := by
  refine h.toLibraryWalk.close fun name => (h.takeBatch name).bind fun answer => ?_
  cases answer with
  | error mistake => exact follows_pure ()
  | ok b => exact h.drop b

end SessionWalk

/-! ## Players and sessions -/

namespace Session

variable {w : World}

/-- However many scripts may run inside each other, they are played by steps of the relation. -/
theorem player_goesBy
    (hwalk : ∀ play : Player, play.GoesBy R A → SessionWalk R A AnyToggleEvent play)
    (limit : Nat) :
    (player limit).GoesBy R A := by
  induction limit with
  | zero =>
      -- a script beyond the limit is skipped, whoever is the player
      have hsilent : SessionWalk R A AnyToggleEvent fun _ _ => pure () :=
        hwalk _ fun _ _ _ => follows_pure ()
      exact fun _ _ _ => hsilent.record trivial
  | succ limit ih =>
      exact fun atHand script hscript => Follows.forM fun command hcommand =>
        (hwalk _ ih).playCommand atHand (hscript command hcommand)

/-- The worlds between the commands of sessions that are given commands of a repertoire only. -/
inductive IdleWith (A : Repertoire) : World → Prop where
  | start : IdleWith A .empty
  | step {w : World} (h : IdleWith A w) (limit : Nat) {command : Command}
      (hhas : A.Has command) :
      IdleWith A (step (player limit) command w).2
  | close {w : World} (h : IdleWith A w) (limit : Nat) :
      IdleWith A ((close (player limit)).worldAfter w)

/-- The worlds in which user code can find itself in such sessions. -/
inductive ReachableWith (A : Repertoire) : World → Prop where
  | idle {w : World} (h : IdleWith A w) : ReachableWith A w
  | amid {w : World} {m : Moment} {earlier : List Moment} (h : IdleWith A w)
      (hm : m :: earlier <:+ w.history) (hyields : m.occurrence.Yields) :
      ReachableWith A ⟨m.state, m :: earlier⟩

theorem IdleWith.idle (h : IdleWith A w) : Idle w := by
  induction h with
  | start => exact .start
  | step _ limit _ ih => exact ih.step limit _
  | close _ limit ih => exact ih.close limit

theorem Idle.with_all (h : Idle w) : IdleWith .all w := by
  induction h with
  | start => exact .start
  | step _ limit _ ih => exact ih.step limit trivial
  | close _ limit ih => exact ih.close limit

theorem ReachableWith.reachable (h : ReachableWith A w) : Reachable w := by
  cases h with
  | idle h => exact .idle h.idle
  | amid h hm hyields => exact .amid h.idle hm hyields

theorem Reachable.with_all (h : Reachable w) : ReachableWith .all w := by
  cases h with
  | idle h => exact .idle h.with_all
  | amid h hm hyields => exact .amid h.with_all hm hyields

theorem idleWith_after (limit : Nat) {commands : List Command}
    (hcommands : ∀ command ∈ commands, A.Has command) :
    IdleWith A (after limit commands) := by
  have hfold : ∀ (w : World), IdleWith A w →
      IdleWith A
        (commands.foldl (fun w command => (Session.step (player limit) command w).2) w) := by
    induction commands with
    | nil => exact fun w h => h
    | cons command rest ih =>
        intro w h
        have hrest := ih fun command' h' => hcommands command' (List.mem_cons_of_mem command h')
        exact hrest _ (h.step limit (hcommands command List.mem_cons_self))
  exact hfold .empty .start

/-- Sessions go by steps of the relation. -/
theorem IdleWith.follows
    (hwalk : ∀ play : Player, play.GoesBy R A → SessionWalk R A AnyToggleEvent play)
    (h : IdleWith A w) :
    Relation.ReflTransGen R .empty w := by
  have hplayer := fun limit => hwalk _ (player_goesBy hwalk limit)
  induction h with
  | start => exact .refl
  | @step w _ limit command hhas ih =>
      rw [world_step]
      exact ih.trans (follows_settle ((hplayer limit).carryOut none hhas) w).worldAfter
  | @close w _ limit ih => exact ih.trans ((hplayer limit).close w).worldAfter

end Session
end UsbTransfer
