import UsbTransfer.Proofs.Likeness.Outcomes

/-!
# Alike operations of the library

Whatever the library does, it does the same in both courses of events, provided that its players
do.  Only the operations that pass an answer of user code on may tell different things: the news
that an object goes away and the request to reset toggles.
-/

namespace UsbTransfer

open Run Comparison

/-- Two players do the same with like scripts. -/
def Comparison.Matches (C : Comparison) (play play' : Player) : Prop :=
  ∀ atHand script script', Like C.strict Script.Alike script script' →
    C.Agree (play atHand script) (play' atHand script')

variable {C : Comparison} {play play' : Player} {b : Key Batch}

theorem agree_run (hplay : C.Matches play play') (atHand : Option (Key Batch))
    {code code' : Option Script} (hcode : Like C.strict CodeAlike code code') :
    C.Agree (play.run atHand code) (play'.run atHand code') := by
  cases code with
  | none =>
      cases hcode.alike
      exact agree_pure ()
  | some script =>
      cases code' with
      | none => cases hcode.alike
      | some script' => exact hplay atHand _ _ hcode.of_some

/-! ## Calls of a bus -/

namespace Bus

/-- What two buses do at their calls is related if it is in all alike plans. -/
theorem alike_nextHook {α : Type} {R : Option α → Option α → Prop} (bus : Key Bus)
    {schedule : BusPlan Script → Schedule α} {used : BusPlan Script → BusPlan Script}
    (hschedule : ∀ plan plan', BusPlan.Alike Script.Alike plan plan' →
      R (schedule plan).current? (schedule plan').current?)
    (hused : ∀ plan plan', BusPlan.Alike Script.Alike plan plan' →
      BusPlan.Alike Script.Alike (used plan) (used plan')) :
    C.Alike R (nextHook bus schedule used) (nextHook bus schedule used) := by
  refine getState_bind fun s s' hs => ?_
  have hplan := (hs.buses.get bus).plan
  refine Agree.bind (agree_edits ⟨fun s s' hs => ?_, fun h => by rw [hs.same h], fun _ _ h => h⟩)
    fun _ => related_pure ?_
  · exact { hs with buses := hs.buses.modify bus fun _ _ h => ⟨h.name, hused _ _ hplan⟩ }
  · exact hs.read (fun s => (schedule (s.buses.get bus).plan).current?) (hschedule _ _ hplan)

/-- What a bus makes of the news that an object goes away.  No behaviour plays nothing and declines,
like a behaviour without a script. -/
def partWith (play : Player) (atHand : Option (Key Batch))
    (hook? : Option (Hook Script FarewellReply)) : Run FarewellReply := do
  play.run atHand (Hook.code? hook?)
  return (hook?.map (·.reply)).getD .declined

theorem endpointFarewell_eq (bus : Key Bus) (e : Key Endpoint) :
    endpointFarewell play bus e = (do
      let hook? ← nextHook bus (·.endpointDestroy)
        fun plan => { plan with endpointDestroy := plan.endpointDestroy.advance }
      record (.endpointFarewell bus e)
      partWith play none hook?) := by
  unfold endpointFarewell
  refine bind_congr fun hook? => bind_congr fun _ => ?_
  cases hook? <;> rfl

theorem batchFarewell_eq (bus : Key Bus) :
    batchFarewell play bus b = (do
      let hook? ← nextHook bus (·.batchDestroy)
        fun plan => { plan with batchDestroy := plan.batchDestroy.advance }
      record (.batchFarewell bus b)
      partWith play (some b) hook?) := by
  unfold batchFarewell
  refine bind_congr fun hook? => bind_congr fun _ => ?_
  cases hook? <;> rfl

/-- A script is played if there is one, and the answer may be anything. -/
theorem alike_partWith (hplay : C.Matches play play') (atHand : Option (Key Batch))
    {hook? hook?' : Option (Hook Script FarewellReply)}
    (hhook : Like C.strict (fun hook? hook?' => CodeAlike (Hook.code? hook?) (Hook.code? hook?'))
      hook? hook?') :
    C.Alike (fun _ _ => True) (partWith play atHand hook?) (partWith play' atHand hook?') := by
  refine (agree_run hplay atHand (hhook.map Hook.code? id)).bind fun _ => ?_
  exact related_pure ⟨trivial, fun h => by rw [hhook.same h]⟩

theorem alike_endpointFarewell (hplay : C.Matches play play') (bus : Key Bus)
    (e : Key Endpoint) :
    C.Alike (fun _ _ => True) (endpointFarewell play bus e) (endpointFarewell play' bus e) := by
  rw [endpointFarewell_eq, endpointFarewell_eq]
  refine Related.bind (alike_nextHook (R := fun hook? hook?' =>
    CodeAlike (Hook.code? hook?) (Hook.code? hook?')) bus ?_ ?_) ?_
  · rintro _ _ ⟨-, -, -, -, hfarewell⟩
    exact hfarewell 0
  · rintro _ _ ⟨hcreate, hdestroy, htable, hreset, hfarewell⟩
    exact .intro hcreate hdestroy htable hreset fun k => hfarewell (k + 1)
  · exact fun _ _ hhook => (agree_record _).bind fun _ => alike_partWith hplay none hhook

theorem alike_batchFarewell (hplay : C.Matches play play') (bus : Key Bus) :
    C.Alike (fun _ _ => True) (batchFarewell play bus b) (batchFarewell play' bus b) := by
  rw [batchFarewell_eq, batchFarewell_eq]
  refine Related.bind (alike_nextHook (R := fun hook? hook?' =>
    CodeAlike (Hook.code? hook?) (Hook.code? hook?')) bus ?_ ?_) ?_
  · rintro _ _ ⟨-, hdestroy, -, -, -⟩
    exact hdestroy 0
  · rintro _ _ ⟨hcreate, hdestroy, htable, hreset, hfarewell⟩
    exact .intro hcreate (fun k => hdestroy (k + 1)) htable hreset hfarewell
  · exact fun _ _ hhook => (agree_record _).bind fun _ => alike_partWith hplay (some b) hhook

end Bus

/-! ## Endpoints -/

namespace Endpoint

theorem agree_create (bus : Key Bus) (descriptor : Descriptor) :
    C.Agree (create bus descriptor) (create bus descriptor) := by
  refine getState_bind fun s s' hs => ?_
  rw [hs.endpoints]
  refine Agree.bind (agree_modifyState (fun _ _ hs => hs.addEndpoint bus descriptor)
    fun _ h => h) fun _ => ?_
  exact (agree_record _).bind fun _ => agree_pure _

theorem agree_acquire (e : Key Endpoint) : C.Agree (acquire e) (acquire e) := by
  refine getState_bind fun s s' hs => ?_
  rw [hs.endpoints]
  split
  · exact related_throw _
  · exact (agree_modifyState (fun _ _ hs => hs.gainReference e) fun _ h => h).bind fun _ =>
      agree_record _

theorem agree_free (hplay : C.Matches play play') (e : Key Endpoint) :
    C.Agree (free play e) (free play' e) := by
  refine getState_bind fun s s' hs => ?_
  rw [hs.busOf]
  refine (Bus.alike_endpointFarewell hplay _ e).bind fun reply reply' hreply => ?_
  exact agree_record_of
    (hreply.map (Occurrence.endpointFreed e) fun _ => .endpointFreed e reply reply')

theorem agree_release (hplay : C.Matches play play') (e : Key Endpoint) :
    C.Agree (release play e) (release play' e) := by
  refine getState_bind fun s s' hs => ?_
  rw [hs.endpoints]
  split
  · exact related_throw _
  · refine (agree_modifyState (fun _ _ hs => hs.loseReference e) fun _ h => h).bind fun _ => ?_
    refine (agree_record _).bind fun _ => ?_
    split
    · exact agree_free hplay e
    · exact agree_pure ()

theorem agree_releaseAll (hplay : C.Matches play play') (es : List (Key Endpoint)) :
    C.Agree (releaseAll play es) (releaseAll play' es) := by
  induction es with
  | nil => exact agree_pure ()
  | cons e rest ih => exact (agree_release hplay e).ensuring ih

theorem agree_setToggle (e : Key Endpoint) (value : Bool) :
    C.Agree (setToggle e value) (setToggle e value) :=
  (agree_modifyState (fun _ _ hs => hs.modifyEndpoint e _) fun _ h => h).bind fun _ =>
    agree_record _

theorem agree_advanceToggle (e : Key Endpoint) :
    C.Agree (advanceToggle e) (advanceToggle e) := by
  refine Agree.bind (agree_modifyState (fun _ _ hs => hs.modifyEndpoint e _) fun _ h => h)
    fun _ => (agree_record _).bind fun _ => getState_bind fun s s' hs => ?_
  rw [hs.endpoints]
  exact agree_pure _

end Endpoint

/-! ## Tables -/

namespace Table

theorem agree_create : C.Agree create create := by
  refine getState_bind fun s s' hs => ?_
  rw [hs.tables]
  refine Agree.bind (agree_modifyState (fun s s' hs => ?_) fun _ h => h) fun _ => agree_pure _
  exact { hs with tables := congrArg (·.push default) hs.tables }

theorem agree_locking {α : Type} (t : Key Table) {m m' : Run α} (hm : C.Agree m m') :
    C.Agree (locking t m) (locking t m') :=
  guarding (fun _ _ hs => by rw [hs.tables]) (fun _ _ _ hs => hs.modifyTable t _)
    (fun _ _ h => h) hm

theorem agree_vacate (t : Key Table) (slot : Nat) : C.Agree (vacate t slot) (vacate t slot) := by
  refine getState_bind fun s s' hs => ?_
  have hordered : C.strict → ∀ e v, s.uninstall? t slot = some (e, v) → v.Ordered := by
    intro h e v hx
    obtain ⟨_, _, rfl⟩ := State.uninstall?_eq_some hx
    exact hs.ordered h
  obtain ⟨hrel, hsame⟩ := hs.read (·.uninstall? t slot) (hs.uninstall? t slot)
  generalize s.uninstall? t slot = x?, s'.uninstall? t slot = x?' at hordered hrel hsame ⊢
  cases hrel with
  | none => exact related_throw _
  | @some x x' h =>
      obtain ⟨e, v⟩ := x
      obtain ⟨e', v'⟩ := x'
      obtain ⟨rfl, hv⟩ := h
      refine Agree.bind (agree_edits ⟨fun _ _ _ => hv, fun h => ?_, fun h _ _ => ?_⟩)
        fun _ => agree_pure _
      · rw [(Prod.mk.inj (Option.some.inj (hsame h))).2]
      · exact hordered h _ _ rfl

theorem agree_register (hplay : C.Matches play play') (t : Key Table) (e : Key Endpoint) :
    C.Agree (register play t e) (register play' t e) := by
  refine (agree_locking t (getState_bind fun s s' hs => ?_)).bind fun installed => ?_
  · rw [hs.tables, hs.targetOf]
    split
    · exact (agree_record _).bind fun _ => agree_pure _
    · refine (agree_record _).bind fun _ => ?_
      exact (agree_modifyState (fun _ _ hs => hs.install t e) fun _ h => h).bind fun _ =>
        agree_pure _
  · split
    · exact agree_pure _
    · exact (Endpoint.agree_release hplay e).bind fun _ => agree_pure _

theorem agree_find? (t : Key Table) (target : Target) :
    C.Agree (find? t target) (find? t target) := by
  refine agree_locking t (getState_bind fun s s' hs => ?_)
  rw [hs.tables, hs.targetOf]
  split
  · exact agree_pure _
  · exact (Endpoint.agree_acquire _).bind fun _ => agree_pure _

theorem agree_remove (t : Key Table) (target : Target) :
    C.Agree (remove t target) (remove t target) := by
  refine agree_locking t (getState_bind fun s s' hs => ?_)
  rw [hs.tables, hs.targetOf]
  split
  · exact agree_pure _
  · refine (agree_record _).bind fun _ => ?_
    exact (agree_vacate t _).bind fun _ => agree_pure _

theorem agree_removeDevice (t : Key Table) (address : UInt8) :
    C.Agree (removeDevice t address) (removeDevice t address) := by
  refine agree_locking t (getState_bind fun s s' hs => ?_)
  rw [hs.tables, hs.targetOf]
  exact (agree_record _).bind fun _ => agree_mapM (agree_vacate t) _

theorem agree_resetToggles (t : Key Table) (target : Target) (scope : ResetScope) :
    C.Agree (resetToggles t target scope) (resetToggles t target scope) := by
  refine agree_locking t (getState_bind fun s s' hs => ?_)
  rw [hs.tables, hs.targetOf]
  refine Agree.bind (agree_forM (List.forall₂_same.mpr fun _ _ => rfl) ?_) fun _ => ?_
  · rintro e _ rfl
    exact Endpoint.agree_setToggle e false
  · exact (agree_record _).bind fun _ => agree_pure _

theorem agree_size (t : Key Table) : C.Agree (size t) (size t) := by
  refine agree_locking t (getState_bind fun s s' hs => ?_)
  rw [hs.tables]
  exact agree_pure _

theorem agree_destroy (hplay : C.Matches play play') (t : Key Table) :
    C.Agree (destroy play t) (destroy play' t) := by
  refine getState_bind fun s s' hs => ?_
  rw [hs.tables]
  refine (agree_record _).bind fun _ => ?_
  refine (agree_modifyState (fun _ _ hs => hs.clearTable t) fun _ h => h).bind fun _ => ?_
  exact Endpoint.agree_releaseAll hplay _

end Table

/-! ## Queues -/

namespace Queue

theorem agree_create : C.Agree create create := by
  refine getState_bind fun s s' hs => ?_
  rw [hs.queues.nextKey]
  refine Agree.bind (agree_modifyState (fun s s' hs => ?_) fun _ h => h) fun _ => agree_pure _
  exact { hs with queues := hs.queues.push ⟨rfl, .none, rfl⟩ }

theorem agree_modify (q : Key Queue) {f f' : Queue → Queue}
    (hf : ∀ queue queue', Queue.Alike queue queue' → Queue.Alike (f queue) (f' queue'))
    (hsame : C.strict → f' = f) :
    C.Agree (modify q f) (modify q f') :=
  agree_edits ⟨fun _ _ hs => hs.modifyQueue q hf, fun h => by rw [hsame h], fun _ _ h => h⟩

theorem agree_locking {α : Type} (q : Key Queue) {m m' : Run α} (hm : C.Agree m m') :
    C.Agree (locking q m) (locking q m') :=
  guarding (fun _ _ hs => (hs.queues.get q).lock)
    (fun _ _ _ hs => hs.modifyQueue q fun _ _ h => { h with lock := rfl }) (fun _ _ h => h) hm

theorem agree_wake (hplay : C.Matches play play') (q : Key Queue) :
    C.Agree (wake play q) (wake play' q) := by
  refine getState_bind fun s s' hs => ?_
  have hwaker := hs.read (fun s => (s.queues.get q).waker) (hs.queues.get q).waker
  generalize (s.queues.get q).waker = x?, (s'.queues.get q).waker = x?' at hwaker ⊢
  cases hwaker.alike with
  | none => exact agree_pure ()
  | @some waker waker' h =>
      refine Agree.bind (agree_modify q (fun _ _ h => { h with waker := .none }) fun _ => rfl)
        fun _ => ?_
      simp only [h.name]
      exact (agree_record _).bind fun _ =>
        agree_run hplay none (hwaker.of_some.map (·.code) (·.code))

theorem agree_push (hplay : C.Matches play play') (q : Key Queue) (c : Completion) :
    C.Agree (push play q c) (push play' q c) := by
  refine Agree.bind (agree_locking q (Agree.bind (agree_modify q (fun queue queue' h => ?_)
    fun _ => rfl) fun _ => agree_record _)) fun _ => agree_wake hplay q
  exact { h with pending := congrArg (· ++ [c]) h.pending }

theorem agree_next? (q : Key Queue) : C.Agree (next? q) (next? q) := by
  refine agree_locking q (getState_bind fun s s' hs => ?_)
  rw [(hs.queues.get q).pending]
  split
  · exact agree_pure _
  · refine Agree.bind (agree_modify q (fun _ _ h => { h with pending := rfl }) fun _ => rfl)
      fun _ => (agree_record _).bind fun _ => agree_pure _

theorem agree_poll (q : Key Queue) {waker waker' : Waker}
    (hwaker : Like C.strict Waker.Alike waker waker') {meanwhile meanwhile' : Run Unit}
    (hmeanwhile : C.Agree meanwhile meanwhile') :
    C.Agree (poll q waker meanwhile) (poll q waker' meanwhile') := by
  refine (agree_next? q).bind fun c? => ?_
  cases c? with
  | some c => exact agree_pure _
  | none =>
      refine Agree.bind (agree_modify q (fun _ _ h => { h with waker := .some hwaker.alike })
        fun h => by rw [hwaker.same h]) fun _ => ?_
      refine hmeanwhile.bind fun _ => (agree_next? q).bind fun c? => ?_
      cases c? with
      | some c => exact agree_pure _
      | none =>
          simp only [hwaker.alike.name]
          exact (agree_record _).bind fun _ => agree_pure _

theorem agree_size (q : Key Queue) : C.Agree (size q) (size q) := by
  refine agree_locking q (getState_bind fun s s' hs => ?_)
  rw [(hs.queues.get q).pending]
  exact agree_pure _

end Queue

end UsbTransfer
