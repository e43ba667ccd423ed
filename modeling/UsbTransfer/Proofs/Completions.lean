import UsbTransfer.Proofs.LifecycleSteps.Sessions
import UsbTransfer.Proofs.Invocations
import UsbTransfer.Proofs.Orders
import UsbTransfer.Proofs.Uses

/-!
# What completions carry

A batch that finishes tells its handler the target that it was created for, the outcome that was
recorded last, unless it is aborted, and its whole buffer.  All of this is read off the uses that
were made of the batch, and nothing that its bus does when it resets toggles changes it.
-/

namespace UsbTransfer

open Run

namespace Session

namespace Use

/-! ## What uses come to -/

/-- The outcome that was recorded last.  Uses are listed from the latest to the first. -/
def outcome : List Use → Status × Nat
  | [] => (.ok, 0)
  | complete status actual :: _ => (status, actual)
  | _ :: earlier => outcome earlier

/-- Bytes that replace those from a place on, if there are as many. -/
def overwrite (buffer : List UInt8) (start : Nat) (bytes : List UInt8) : List UInt8 :=
  if start + bytes.length ≤ buffer.length then
    buffer.mapIdx fun i byte => if start ≤ i then bytes[i - start]?.getD byte else byte
  else buffer

/-- The buffer that was given or had last, with all that was written since.  An allocation counts
if the memory was had. -/
def contents : List Use → List UInt8
  | [] => []
  | setBuffer data :: _ => data
  | allocBuffer length granted :: earlier =>
      if Transfer.Obtains length granted then List.replicate length 0 else contents earlier
  | write start bytes :: earlier => overwrite (contents earlier) start bytes
  | _ :: earlier => contents earlier

/-- What is told of a batch on an endpoint of the description when it finishes after the uses, in
one of the two ways. -/
def completion (d : Descriptor) (uses : List Use) (ending : Batch.Ending) : Completion where
  target := d.target
  status := if ending = .abort then .failed .cancelled else (outcome uses).1
  actual := (outcome uses).2
  data := contents uses

/-- The plain data of a batch on an endpoint of the description after the uses. -/
def transfer (d : Descriptor) : List Use → Transfer
  | [] => .ofDescriptor d
  | use :: earlier => use.apply (transfer d earlier)

theorem overwrite_eq {buffer : List UInt8} {start : Nat} {bytes : List UInt8}
    (h : start + bytes.length ≤ buffer.length) :
    overwrite buffer start bytes =
      buffer.take start ++ bytes ++ buffer.drop (start + bytes.length) := by
  rw [overwrite, if_pos h]
  apply List.ext_getElem?
  intro i
  rw [List.getElem?_mapIdx]
  rcases Nat.lt_or_ge i start with hbefore | hfrom
  · grind
  · rcases Nat.lt_or_ge i (start + bytes.length) with hwithin | hafter
    · grind
    · grind

/-- What uses come to is what the plain data of the batch say after them. -/
theorem transfer_told (d : Descriptor) (uses : List Use) :
    (transfer d uses).descriptor = d ∧
      ((transfer d uses).status, (transfer d uses).actual) = outcome uses ∧
        (transfer d uses).buffer = contents uses := by
  induction uses with
  | nil => exact ⟨rfl, rfl, rfl⟩
  | cons use earlier ih =>
      obtain ⟨hdescriptor, houtcome, hbuffer⟩ := ih
      cases use with
      | complete => exact ⟨hdescriptor, rfl, hbuffer⟩
      | setBuffer => exact ⟨hdescriptor, houtcome, rfl⟩
      | allocBuffer length granted =>
          simp only [transfer, apply, Transfer.allocBuffer?, contents]
          split
          · exact ⟨hdescriptor, houtcome, rfl⟩
          · exact ⟨hdescriptor, houtcome, hbuffer⟩
      | write start bytes =>
          simp only [transfer, apply, Transfer.write?, contents, ← hbuffer]
          split
          · next hwithin => exact ⟨hdescriptor, houtcome, (overwrite_eq hwithin).symm⟩
          · next hbeyond => exact ⟨hdescriptor, houtcome, (if_neg hbeyond).symm⟩
      | setSetup setup =>
          simp only [transfer, apply, Transfer.setSetup]
          split <;> exact ⟨hdescriptor, houtcome, hbuffer⟩
      | schedule =>
          simp only [transfer, apply, Transfer.schedule]
          split <;> exact ⟨hdescriptor, houtcome, hbuffer⟩
      | _ => exact ⟨hdescriptor, houtcome, hbuffer⟩

/-- A batch finishes with the completion that its uses come to. -/
theorem completion_final (d : Descriptor) (uses : List Use) {ending : Batch.Ending}
    (hfinishes : ending.Finishes) :
    (ending.final (transfer d uses)).completion = completion d uses ending := by
  obtain ⟨hdescriptor, houtcome, hbuffer⟩ := transfer_told d uses
  obtain ⟨hstatus, hactual⟩ := Prod.mk.inj houtcome
  have htarget : (transfer d uses).target = d.target := congrArg Descriptor.target hdescriptor
  cases ending with
  | finish =>
      simp only [Batch.Ending.final, Transfer.completion, completion, htarget, hstatus, hactual,
        hbuffer, reduceCtorEq, if_false]
  | abort =>
      simp only [Batch.Ending.final, Transfer.completion, Transfer.cancel, completion, hactual,
        hbuffer, if_true, ← htarget]
      rfl
  | destroy | drop => exact hfinishes.elim

/-- What is done at once with the plain data of a batch is what a use does with them. -/
theorem exists_apply_eq {t t' : Transfer} (h : t.Edit t') : ∃ use : Use, use.apply t = t' := by
  cases h with
  | setScope scope => exact ⟨.setScope scope, rfl⟩
  | @setSetup _ setup h =>
      refine ⟨.setSetup setup, ?_⟩
      rw [apply, h]
      rfl
  | setBuffer data => exact ⟨.setBuffer data, rfl⟩
  | @allocBuffer _ length granted h =>
      refine ⟨.allocBuffer length granted, ?_⟩
      rw [apply, h]
      rfl
  | @write _ start bytes h =>
      refine ⟨.write start bytes, ?_⟩
      rw [apply, h]
      rfl
  | complete status actual => exact ⟨.complete status actual, rfl⟩
  | cancel => exact ⟨.complete (.failed .cancelled) t.actual, rfl⟩
  | schedule h =>
      refine ⟨.schedule, ?_⟩
      rw [apply, h]
      rfl

end Use

/-! ## Uses of a batch in a session -/

/-- The uses that were made of a batch since it was built, from the latest to the first, and the
description of the endpoint that it was built on.  Between two uses anything may happen that leaves
the plain data of the batch as they were. -/
inductive Used (b : Key Batch) : Descriptor → List Use → World → Prop where
  | built {w : World} (e : Key Endpoint) (hb : b = w.state.batches.nextKey) :
      Used b (w.state.endpoints.get e).descriptor []
        ((w.alter (·.addBatch e)).note (.batchBuilt b e))
  /-- The plain data become what the use makes of them. -/
  | edit {w : World} {d : Descriptor} {uses : List Use} (h : Used b d uses w)
      (hb : b.index < w.state.batches.size) (use : Use) :
      Used b d (use :: uses) (w.alter (·.setTransfer b (use.apply (w.state.transferOf b))))
  | aside {w w' : World} {d : Descriptor} {uses : List Use} (h : Used b d uses w)
      (haside : w'.state.transferOf b = w.state.transferOf b) :
      Used b d uses w'

variable {w w' : World} {b : Key Batch} {d : Descriptor} {uses : List Use} {hands : Hands}

/-- The plain data of a batch are what its uses make of those of its endpoint. -/
theorem Used.transferOf_eq (h : Used b d uses w) :
    w.state.transferOf b = Use.transfer d uses := by
  induction h with
  | @built w e hb =>
      subst hb
      exact congrArg Batch.transfer ((w.state.batches.get_push _ _).trans (if_pos rfl))
  | edit _ hb use ih =>
      rw [Use.transfer, ← ih]
      exact congrArg Batch.transfer (Arena.get_modify_self _ _ _ hb)
  | aside _ haside ih => exact haside.trans ih

/-- Whoever has the batch in hand and uses it makes that use, however the use ends. -/
theorem Used.use {play : Player} (h : Used b d uses w) (hplay : play.Fair) (hw : w.Ready hands)
    (hb : hands.Lent b) (use : Use) :
    Used b d (use :: uses) ((use.run play b).worldAfter w) := by
  have hloose := hw.loose_of_lent hb
  have hedited : (w.alter (·.setTransfer b (use.apply (w.state.transferOf b)))).state.transferOf b =
      use.apply (w.state.transferOf b) :=
    congrArg Batch.transfer (Use.get_setTransfer hloose _)
  exact (h.edit hloose.1 use).aside
    ((use.ensures_run hplay hw hb).worldAfter.trans hedited.symm)

/-- A batch that was just built was not used. -/
theorem ensures_build_used {e : Key Endpoint}
    (hreferences : 0 < (w.state.endpoints.get e).references) :
    Ensures (Batch.build e) w fun _ w' =>
      Used w.state.batches.nextKey (w.state.endpoints.get e).descriptor [] w' := by
  have hkept : ((w.state.gainReference e).endpoints.get e).descriptor =
      (w.state.endpoints.get e).descriptor :=
    w.state.endpoints.apply_get_modify e e _ Endpoint.descriptor fun _ => rfl
  unfold Batch.build
  rw [ensures_bind, Endpoint.ensures_acquire hreferences]
  simp only [then_ok, ensures_bind, ensures_getState, ensures_modifyState, ensures_record,
    ensures_pure]
  rw [← hkept]
  exact .built (w := (w.alter (·.gainReference e)).note (.referenceTaken e)) e rfl

/-! ## What is used meanwhile -/

/-- A change makes a use of the batch, or is aside of it, unless a handler gets its buffer. -/
theorem Used.changed (h : Used b d uses w) (hchange : Change hands w w')
    (hb : b.index < w.state.batches.size) (hunspent : w'.Unspent b) :
    ∃ later, Used b d (later ++ uses) w' := by
  have haside : w'.state.transferOf b = w.state.transferOf b →
      ∃ later, Used b d (later ++ uses) w' :=
    fun hsame => ⟨[], h.aside hsame⟩
  cases hchange with
  | @edit b' t _ hedit =>
      by_cases hsame : b = b'
      case pos =>
        subst hsame
        obtain ⟨use, rfl⟩ := Use.exists_apply_eq hedit
        exact ⟨[use], h.edit hb use⟩
      case neg => exact haside (congrArg Batch.transfer (Arena.get_modify_of_ne _ _ hsame))
  | @handOver b' handler =>
      by_cases hsame : b = b'
      case pos =>
        subst hsame
        exact absurd ⟨_, _, _, rfl⟩ (hunspent _ List.mem_cons_self)
      case neg =>
        refine haside (congrArg Batch.transfer ?_)
        simp only [World.note_state, World.alter_state, State.setTransfer, State.detachHandler,
          Arena.modify_modify]
        exact Arena.get_modify_of_ne _ _ hsame
  | build => exact haside (congrArg Batch.transfer (w.state.batches.get_push_of_lt _ hb))
  | uninstall hslot =>
      obtain ⟨_, -, rfl⟩ := State.uninstall?_eq_some hslot
      exact haside rfl
  | giveUpEndpoint | detachHandler | attachHandler | detachData | attachData | changeData =>
      exact haside (Arena.apply_get_modify _ _ _ _ Batch.transfer fun _ => rfl)
  | _ => exact haside rfl

/-- Whatever is done in a session, and on whichever objects, makes uses of the batch, one after the
other, until a handler gets its buffer. -/
theorem Used.run (h : Used b d uses w) (hchanges : Changes hands w w')
    (hb : b.index < w.state.batches.size) (hunspent : w'.Unspent b) :
    ∃ later, Used b d (later ++ uses) w' := by
  induction hchanges with
  | refl => exact ⟨[], h⟩
  | tail hbefore hchange ih =>
      obtain ⟨earlier, hused⟩ := ih (hunspent.of_suffix hchange.adds.suffix)
      have hb₁ := Nat.lt_of_lt_of_le hb (Changes.size_le hbefore).1
      obtain ⟨later, hlater⟩ := hused.changed hchange hb₁ hunspent
      exact ⟨later ++ earlier, by rwa [List.append_assoc]⟩

/-- Every batch is what was made of it since it was built, until a handler gets its buffer. -/
theorem Changes.used (h : Changes Hands.empty World.empty w) (hb : b.index < w.state.batches.size)
    (hunspent : w.Unspent b) :
    ∃ d uses, Used b d uses w := by
  induction h with
  | refl => exact absurd hb (Nat.not_lt_zero _)
  | @tail w w' hbefore hchange ih =>
      rcases Nat.lt_or_ge b.index w.state.batches.size with hold | hnew
      · obtain ⟨d, uses, hused⟩ := ih hold (hunspent.of_suffix hchange.adds.suffix)
        obtain ⟨later, hlater⟩ := hused.changed hchange hold hunspent
        exact ⟨d, later ++ uses, hlater⟩
      · obtain ⟨hkey, e, rfl⟩ := hchange.built_of_new hnew hb
        exact ⟨_, [], .built e hkey⟩

/-- Every batch on an endpoint is what was made of it since it was built on that endpoint. -/
theorem Reachable.used (h : Reachable w) {e : Key Endpoint}
    (he : (w.state.batches.get b).endpoint = some e) (hunspent : w.Unspent b) :
    ∃ uses, Used b (w.state.endpoints.get e).descriptor uses w := by
  obtain ⟨d, uses, hused⟩ := Changes.used h.changes (State.index_lt_of_endpoint he) hunspent
  have hdescriptor : d = (w.state.endpoints.get e).descriptor := by
    rw [← h.ready.sound.described b e he, hused.transferOf_eq]
    exact (Use.transfer_told d uses).1.symm
  exact ⟨uses, hdescriptor ▸ hused⟩

/-! ## Commands -/

/-- What others do while the batch is in somebody's hands is aside of it. -/
theorem Used.others {give take : List Item} (h : Used b d uses w)
    (hmoves : Moves (hands.hold b) give take w w') (hloose : w.Loose b) :
    Used b d uses w' :=
  h.aside (congrArg Batch.transfer (hmoves.aside hloose).1)

/-- A use of a named batch is made while the batch has no name. -/
theorem Used.unnamed {name : String} (h : Used b d uses w) (hw : Reachable w)
    (hfind : w.state.directory.batches.find? name = some b) (limit : Nat) (use : Use) :
    Used b d (use :: uses) ((use.run (player limit) b).worldAfter (w.unname name)) := by
  obtain ⟨hunname, hown⟩ := hw.own_unnamed hfind
  have hready := (hunname.ready hw.ready).lend hown.loose
  have hunnamed : Used b d uses (w.unname name) := h.aside rfl
  exact hunnamed.use (player_fair limit) hready hown.mayEnd.mayTouch.lent use

/-- A command that uses a batch by its name makes that use while the batch has no name, and nothing
else, unless user code takes the name meanwhile. -/
theorem Use.ensures_command {name : String} {limit : Nat} {use : Use}
    {Q : Except Fault Result → World → Prop}
    (hfind : w.state.directory.batches.find? name = some b)
    (hfree : ((use.run (player limit) b).worldAfter
      (w.unname name)).state.directory.batches.find? name = none)
    (hused : Ensures (use.run (player limit) b) (w.unname name) fun r w' =>
      Q r (w'.alter (·.setDirectory fun d => { d with batches := d.batches.insert name b }))) :
    Ensures (carryOut (player limit) none (use.command name)) w Q := by
  have hnone : (if name = atHandName then (none : Option (Key Batch)) else none) = none :=
    ite_self none
  rw [use.carryOut_command]
  simp only [onBatch, hnone, ensures_bind, ensures_takeBatch_of_named hfind, then_ok,
    ensures_ensuring]
  apply Ensures.mono (hused.and (ensures_worldAfter (use.run (player limit) b) (w.unname name)))
  rintro r w' ⟨hr, rfl⟩
  simp only [keepBatch, ensures_bind, ensures_getState, then_ok, ensures_modifyDirectory]
  rw [hfree]
  cases r <;> exact hr

/-- A command that uses a batch by its name makes that use and no other, unless user code takes the
name meanwhile. -/
theorem Used.commanded {name : String} {limit : Nat} {use : Use} (h : Used b d uses w)
    (hw : Reachable w) (hfind : w.state.directory.batches.find? name = some b)
    (hfree : ((use.run (player limit) b).worldAfter
      (w.unname name)).state.directory.batches.find? name = none) :
    Ensures (carryOut (player limit) none (use.command name)) w fun _ w' =>
      Used b d (use :: uses) w' := by
  apply use.ensures_command hfind hfree
  apply Ensures.mono (ensures_worldAfter (use.run (player limit) b) (w.unname name))
  rintro r w' rfl
  exact (h.unnamed hw hfind limit use).aside rfl

/-- An allocation gets what is asked for if the memory is had, and is refused otherwise. -/
theorem ensures_allocBuffer_answer (b : Key Batch) (length : Nat) (granted : Bool) :
    Ensures (allocBuffer b length granted) w fun r w' =>
      r = .ok (if Transfer.Obtains length granted then .ok .done
        else .error (.failed .bufferRefused)) ∧
      w'.state.directory = w.state.directory := by
  simp only [allocBuffer, Batch.allocBuffer, ensures_bind, ensures_getState, then_ok,
    Transfer.allocBuffer?]
  by_cases hobtains : Transfer.Obtains length granted
  case pos =>
    simp only [if_pos hobtains, ensures_bind, Batch.ensures_modifyTransfer, then_ok, ensures_pure]
    exact ⟨trivial, rfl⟩
  case neg =>
    simp only [if_neg hobtains, ensures_bind, ensures_record, then_ok, ensures_pure]
    exact ⟨trivial, rfl⟩

theorem Used.allocated {name : String} (h : Used b d uses w) (hw : Reachable w)
    (hfind : w.state.directory.batches.find? name = some b) (limit length : Nat)
    (granted : Bool) :
    Ensures (carryOut (player limit) none (.allocBuffer name length granted)) w fun r w' =>
      r = .ok (if Transfer.Obtains length granted then .ok .done
        else .error (.failed .bufferRefused)) ∧
      Used b d (.allocBuffer length granted :: uses) w' := by
  have hanswer := ensures_allocBuffer_answer (w := w.unname name) b length granted
  have hfree : (((Use.allocBuffer length granted).run (player limit) b).worldAfter
      (w.unname name)).state.directory.batches.find? name = none := by
    change ((allocBuffer b length granted).worldAfter _).state.directory.batches.find? name = none
    rw [(hanswer.mono fun _ _ hr => hr.2).worldAfter]
    exact hw.ordered.find?_erase name
  refine Ensures.and (Use.ensures_command hfind hfree ?_) (h.commanded hw hfind hfree)
  exact hanswer.mono fun _ _ hr => hr.1

theorem Used.after {commands : List Command} {limit : Nat}
    (h : Used b d uses (after limit commands)) (name : String)
    (hfind : (after limit commands).state.directory.batches.find? name = some b) (use : Use)
    (hfree : ((use.run (player limit) b).worldAfter
      ((after limit commands).unname name)).state.directory.batches.find? name = none) :
    Used b d (use :: uses) (after limit (commands ++ [use.command name])) :=
  after_concat (h.commanded (.idle (idle_after limit commands)) hfind hfree)

/-- What is known of a batch, by its name, after the uses that were made of it. -/
structure CompletionTold (name : String) (b : Key Batch) (d : Descriptor) (uses : List Use)
    (limit : Nat) (w : World) : Prop where
  /-- If it finishes or is aborted, and its bus does not give up before, its handler receives one
  completion, which is the one that the uses come to. -/
  completes : ∀ ending : Batch.Ending, ending.Finishes →
    ∀ handler, (w.state.batches.get b).handler = some handler →
      ¬ ending.Interrupted (player limit) b (w.unname name) →
        Ensures (endBatch name fun b => ending.run (player limit) b) w fun _ w' =>
          ∃ all, w.Trace all w' ∧ Batch.invocations b all =
            [(handler.serial, handler.name?, Use.completion d uses ending)]
  /-- A command that uses it by its name makes one more use, unless user code takes the name
  meanwhile. -/
  commanded : ∀ use : Use,
    ((use.run (player limit) b).worldAfter
      (w.unname name)).state.directory.batches.find? name = none →
        Ensures (carryOut (player limit) none (use.command name)) w fun _ w' =>
          Used b d (use :: uses) w'
  /-- An allocation counts if and only if it is said to have been made. -/
  allocates : ∀ length granted,
    Ensures (carryOut (player limit) none (.allocBuffer name length granted)) w fun r w' =>
      r = .ok (if Transfer.Obtains length granted then .ok .done
        else .error (.failed .bufferRefused)) ∧
      Used b d (.allocBuffer length granted :: uses) w'
  /-- Whatever others do while it is in somebody's hands is no use of it. -/
  spared : ∀ command : Command,
    Ensures (carryOut (player limit) none command) (w.unname name) fun _ w' => Used b d uses w'
  /-- Whatever is done, also on other objects, the batch is what was made of it until its handler
  gets the buffer. -/
  kept : ∀ command : Command,
    Ensures (carryOut (player limit) none command) w fun _ w' =>
      w'.Unspent b → ∃ later, Used b d (later ++ uses) w'

/-- A batch completes with what was made of it, whatever its bus does before its handler is
invoked.  Every batch that has a name is what was made of it since it was built, also if a hook
built it. -/
theorem Reachable.completion_told (h : Reachable w) (name : String)
    (hfind : w.state.directory.batches.find? name = some b) (limit : Nat) :
    (∃ e uses, (w.state.batches.get b).endpoint = some e ∧
      Used b (w.state.endpoints.get e).descriptor uses w) ∧
    ∀ d uses, Used b d uses w → CompletionTold name b d uses limit w := by
  obtain ⟨hunname, hown⟩ := h.own_unnamed hfind
  have hready := hunname.ready h.ready
  have hnone : ∀ {hands : Hands} (b' : Key Batch), none = some b' → hands.Lent b' := fun _ => nofun
  constructor
  · obtain ⟨e, he⟩ := Option.isSome_iff_exists.mp
      (h.ready.sound.batchesLive b (Names.mem_values_of_find? hfind))
    obtain ⟨uses, hused⟩ :=
      h.used he (h.documented.unspent b (Names.mem_values_of_find? hfind))
    exact ⟨e, uses, he, hused⟩
  · intro d uses hused
    have hused' : Used b d uses (w.unname name) := hused.aside rfl
    constructor
    case commanded => exact fun use hfree => hused.commanded h hfind hfree
    case allocates => exact hused.allocated h hfind limit
    case completes =>
      intro ending hfinishes handler hhandler hreached
      have hhandler' : ((w.unname name).state.batches.get b).handler = some handler := hhandler
      rw [ensures_endBatch hfind]
      apply Ensures.mono (Batch.ensures_ending (player_fair limit) hready hown.loose hown.mayEnd
        ending)
      intro r w' hcourse
      obtain ⟨all, invoked, htrace, hinvokes, hinvocations⟩ :=
        hcourse.invocations hready.sound hown.mayEnd hown.loose hown.endpoint
      obtain rfl : invoked = some handler := by
        rw [hinvokes.2 hreached, if_pos hfinishes, hhandler']
      rw [hused'.transferOf_eq, Use.completion_final d uses hfinishes] at hinvocations
      exact ⟨all, htrace, hinvocations⟩
    case spared =>
      intro command
      apply Ensures.mono (carryOut_obeys (player_fair limit) (hready.hold hown.loose) hnone
        command)
      exact fun _ _ hr => hused'.others hr.moves hown.loose
    case kept =>
      intro command
      apply Ensures.mono (carryOut_obeys (player_fair limit) h.ready hnone command)
      exact fun _ _ hr hunspent => hused.run hr.moves.changes hown.loose.1 hunspent

/-- A batch is aborted after uses two of which were refused, one of them an allocation for which
there was no memory, and its bus tries to change its buffer when it is asked to reset toggles. -/
theorem completion_told_aborted :
    ∃ w uses w' all, Reachable w ∧ Used ⟨0⟩ ⟨⟨1, 2, .outbound⟩, .bulk, 64⟩ uses w ∧
      ¬ Batch.Ending.Interrupted (player 1) ⟨0⟩ (w.unname "transfer") .abort ∧ w.Trace all w' ∧
      Batch.invocations ⟨0⟩ all =
        [(1, some "done", ⟨⟨1, 2, .outbound⟩, .failed .cancelled, 2, [1, 9, 3]⟩)] := by
  let hub : List Command :=
    [.addBus "hub" { BusPlan.bare Script with
        toggleReset := ⟨[⟨some [.setBuffer "transfer" []], ⟨none, .done⟩⟩]⟩ },
      .addEndpoint "hub" ⟨⟨1, 2, .outbound⟩, .bulk, 64⟩ "pipe"]
  let made := hub ++ [.newBatch "pipe" "transfer"]
  have hmade : Used ⟨0⟩ ⟨⟨1, 2, .outbound⟩, .bulk, 64⟩ [] (after 1 made) :=
    (ensures_build_used (w := after 1 hub) (e := ⟨0⟩) (by decide)).worldAfter.aside (by decide)
  have hfilled := hmade.after "transfer" (by decide) (.setBuffer [1, 2, 3]) (by decide)
  have hlacking := hfilled.after "transfer" (by decide) (.allocBuffer 1125899906842624 false)
    (by decide)
  have hwritten := hlacking.after "transfer" (by decide) (.write 1 [9]) (by decide)
  have hrefused := hwritten.after "transfer" (by decide) (.setSetup (.replicate 8 0))
    (by decide)
  have hcompleted := hrefused.after "transfer" (by decide)
    (.complete (.failed .stall) 2) (by decide)
  have hgiven := hcompleted.after "transfer" (by decide)
    (.onComplete ⟨"done", none, none, [], false⟩) (by decide)
  obtain ⟨w, hw⟩ : ∃ w, w = after 1 (made ++ [.setBuffer "transfer" [1, 2, 3]] ++
      [.allocBuffer "transfer" 1125899906842624 false] ++ [.write "transfer" 1 [9]] ++
      [.setSetup "transfer" (.replicate 8 0)] ++
      [.complete "transfer" (.failed .stall) 2] ++
      [.onComplete "transfer" ⟨"done", none, none, [], false⟩]) := ⟨_, rfl⟩
  have hused : Used ⟨0⟩ _ _ w := hw ▸ hgiven
  have hreachable : Reachable w := hw ▸ .idle (idle_after 1 _)
  have htold := (hreachable.completion_told "transfer" (by rw [hw]; decide) 1).2 _ _ hused
  have hreached : ¬ Batch.Ending.Interrupted (player 1) ⟨0⟩ (w.unname "transfer") .abort := by
    rintro ⟨-, hfaults⟩
    exact absurd hfaults (by rw [hw]; decide)
  have hhandler : (w.state.batches.get ⟨0⟩).handler.map (fun h => (h.serial, h.name?)) =
      some (1, some "done") := by
    rw [hw]
    decide
  obtain ⟨handler, hfound, htells⟩ := Option.map_eq_some_iff.mp hhandler
  obtain ⟨hserial, hname⟩ := Prod.mk.inj htells
  obtain ⟨all, htrace, hall⟩ :=
    (htold.completes .abort trivial handler hfound hreached).worldAfter
  rw [hserial, hname] at hall
  exact ⟨w, _, _, all, hreachable, hused, hreached, htrace, hall⟩

end Session
end UsbTransfer
