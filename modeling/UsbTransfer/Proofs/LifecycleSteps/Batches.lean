import UsbTransfer.Proofs.Belongings
import UsbTransfer.Proofs.LifecycleSteps.Library
import UsbTransfer.Proofs.Lifetimes
import UsbTransfer.Proofs.Walks.Sessions

/-!
# The lives of batches

Whoever uses or ends a batch has it in hands; a batch that was created is in hands until it gets a
name; and however a batch ends, it owns nothing in the end, since nobody touches a batch without a
name that is in others' hands.
-/

namespace UsbTransfer

open Run

variable {own : Option (Key Batch)} {play : Player} {b : Key Batch} {w w' : World}

/-! ## What a step does to a batch -/

namespace State

/-- A batch is changed that keeps its handler and its endpoint. -/
theorem Calm.of_batch {s s' : State} {f : Batch → Batch}
    (hbatches : s'.batches = s.batches.modify b f) (htables : s'.tables = s.tables)
    (hbuses : s'.buses = s.buses) (hnames : s'.directory.batches = s.directory.batches)
    (hserial : s.serial ≤ s'.serial)
    (hhandler : ∀ batch, (f batch).handler = batch.handler)
    (hendpoint : ∀ batch, (f batch).endpoint = batch.endpoint) :
    s.Calm s' where
  slots := fun t => by rw [htables]
  handler := fun b' => by
    rw [hbatches]
    exact s.batches.apply_get_modify b b' f Batch.handler hhandler
  endpoint := fun b' => by
    rw [hbatches]
    exact s.batches.apply_get_modify b b' f Batch.endpoint hendpoint
  size := by rw [hbatches, Arena.size_modify]
  names := by simp [hnames]
  plan := fun bus _ => by rw [hbuses]
  buses := Nat.le_of_eq (by rw [hbuses])
  serial := hserial

theorem detachHandler_of_none {s : State} (h : (s.batches.get b).handler = none) :
    s.detachHandler b = s := by
  have hbatches := s.batches.modify_eq_self b (fun batch => { batch with handler := none })
    (by rw [← h])
  simp only [detachHandler, hbatches, h, Option.map_none, Option.getD_none, List.nil_append]

end State

/-- A batch that exists gets no other endpoint, and may only lose the one that it has. -/
theorem LifecycleStep.endpoint_cases (h : LifecycleStep w w')
    (hb : b.index < w.state.batches.size) :
    b.index < w'.state.batches.size ∧
      ((w'.state.batches.get b).endpoint = (w.state.batches.get b).endpoint ∨
        (w'.state.batches.get b).endpoint = none) := by
  have hmodified : ∀ (b' : Key Batch) (f : Batch → Batch),
      (∀ batch, (f batch).endpoint = batch.endpoint) →
        ((w.state.batches.modify b' f).get b).endpoint = (w.state.batches.get b).endpoint :=
    fun b' f hf => w.state.batches.apply_get_modify b' b f Batch.endpoint hf
  cases h with
  | alter hcalm => exact ⟨hcalm.size.symm ▸ hb, .inl (hcalm.endpoint b)⟩
  | note | call | name | perish | finish | install | giveUpTable => exact ⟨hb, .inl rfl⟩
  | build e =>
      refine ⟨Nat.lt_of_lt_of_le hb (by simp [State.addBatch]), .inl ?_⟩
      exact congrArg Batch.endpoint (w.state.batches.get_push_of_lt _ hb)
  | @giveUp b' e he =>
      refine ⟨by simpa [State.detachEndpoint] using hb, ?_⟩
      by_cases heq : b = b'
      · subst heq
        exact .inr (congrArg Batch.endpoint (Arena.get_modify_self _ _ _ hb))
      · exact .inl (congrArg Batch.endpoint (Arena.get_modify_of_ne _ _ heq))
  | attach | invoke =>
      simp only [World.note_state, World.alter_state, State.attachHandler, State.detachHandler,
        State.setTransfer, Arena.modify_modify, Arena.size_modify]
      exact ⟨hb, .inl (hmodified _ _ fun _ => rfl)⟩
  | shed =>
      simp only [World.alter_state, State.detachHandler, Arena.size_modify]
      exact ⟨hb, .inl (hmodified _ _ fun _ => rfl)⟩
  | uninstall target hslot =>
      obtain ⟨_, -, rfl⟩ := State.uninstall?_eq_some hslot
      exact ⟨hb, .inl rfl⟩
  | uninstallDevice count hvalues hothers hbatches =>
      exact ⟨hbatches ▸ hb, .inl (by rw [World.alter_state, hbatches])⟩

/-- What lost its endpoint gets none again. -/
theorem LifecycleSteps.endpoint_none (h : LifecycleSteps w w') (hb : b.index < w.state.batches.size)
    (hnone : (w.state.batches.get b).endpoint = none) :
    (w'.state.batches.get b).endpoint = none := by
  have hkept : b.index < w'.state.batches.size ∧ (w'.state.batches.get b).endpoint = none := by
    induction h with
    | refl => exact ⟨hb, hnone⟩
    | tail _ hstep ih =>
        obtain ⟨hsize, hsame | hnone⟩ := hstep.endpoint_cases ih.1
        · exact ⟨hsize, hsame.trans ih.2⟩
        · exact ⟨hsize, hnone⟩
  exact hkept.2

/-! ## Handlers and values -/

namespace Handler

/-- When a handler has released what it captured, it tells that it is destroyed. -/
theorem ensures_destroyed (hplay : play.UsesOnlyAtHand) (hw : w.Tame none) (h : Handler) :
    Ensures (h.destroy play b) w fun _ w' => ∃ w₁ lastWords, w.TouchesOnly none w₁ ∧
      w' = w₁.note (.handlerDestroyed b h.serial lastWords) := by
  unfold destroy
  rw [ensures_ensuring]
  refine Ensures.mono (UsesOnly.ensures (hplay.walk.releaseAll h.captured) hw) fun r w₁ h₁ => ?_
  rw [ensures_record]
  exact ⟨w₁, _, h₁.toTouchesOnly, rfl⟩

/-- A handler that left its batch got its number before. -/
structure Departed (h : Handler) (b : Key Batch) (w : World) : Prop where
  number : h.serial < w.state.serial
  gone : (w.state.batches.get b).handler.map (·.serial) ≠ some h.serial

theorem Departed.of_touchesOnly {h : Handler} (hgone : h.Departed b w) (hloose : w.Loose b)
    (hw : w.TouchesOnly none w') :
    h.Departed b w' := by
  refine ⟨Nat.lt_of_lt_of_le hgone.number (LifecycleSteps.serial_le hw.steps), ?_⟩
  rw [(hw.secluded b (by simp) hloose).2.1]
  exact hgone.gone

/-- That a handler is destroyed changes nothing about its batch. -/
theorem usesOnly_destroyed (hw : w.Tame (some b)) {h : Handler} (hgone : h.Departed b w)
    (lastWords : Option String) :
    w.UsesOnly (some b) (w.note (.handlerDestroyed b h.serial lastWords)) := by
  refine .of_own (.perish lastWords (hw.loose b rfl).1 (hw.unended b (.inr rfl)) hgone.number
    hgone.gone) hw (w.state.batches.modify_eq_self b id rfl).symm rfl (.cons rfl ?_)
    (fun _ => rfl) fun h => h
  simp [Occurrence.handled?]

theorem ensures_destroy_usesOnly (hplay : play.UsesOnlyAtHand) (hw : w.Tame (some b)) {h : Handler}
    (hgone : h.Departed b w) :
    Ensures (h.destroy play b) w fun _ w' => w.UsesOnly (some b) w' := by
  refine Ensures.mono (h.ensures_destroyed hplay hw.none) fun r w' hr => ?_
  obtain ⟨w₁, lastWords, h₁, rfl⟩ := hr
  have hbeside : w.UsesOnly (some b) w₁ := h₁.beside hw
  exact hbeside.trans (usesOnly_destroyed hbeside.tame (hgone.of_touchesOnly (hw.loose b rfl) h₁) _)

/-- A handler that is invoked does its work and is destroyed after that. -/
theorem ensures_used (hplay : play.UsesOnlyAtHand) (hw : w.Tame (some b)) {h : Handler}
    (hgone : h.Departed b w) (c : Completion) :
    Ensures (ensuring
      (match h.action with
        | .run _ code reply => do
            play.run none code
            return reply
        | .forward q => do
            Queue.push play q c
            return none)
      (h.destroy play b)) w fun _ w' => w.UsesOnly (some b) w' := by
  have hwork : UsesOnly none (match h.action with
      | .run _ code reply => do
          play.run none code
          return reply
      | .forward q => do
          Queue.push play q c
          return none) := by
    cases h.action with
    | run name code reply => exact (hplay.run code).bind fun _ => follows_pure _
    | forward q => exact (hplay.walk.push q c).bind fun _ => follows_pure _
  rw [ensures_ensuring]
  refine Ensures.mono (hwork.ensures hw.none) fun r w₁ h₁ => ?_
  have hbeside := h₁.toTouchesOnly.beside hw
  refine Ensures.mono (ensures_destroy_usesOnly hplay hbeside.tame
    (hgone.of_touchesOnly (hw.loose b rfl) h₁.toTouchesOnly)) fun r' w₂ h₂ => ?_
  exact hbeside.trans h₂

end Handler

theorem Attachment.usesOnly_destroy (hplay : play.UsesOnlyAtHand) (a : Attachment) :
    UsesOnly own (a.destroy play b) :=
  (hplay.walk.releaseAll a.value.captured).ensuring fun _ => .single (.note trivial)

namespace World.UsesOnlyIfTame

/-- Whoever has a batch in hands may change it. -/
theorem edit {f : State → State} {g : Batch → Batch}
    (hbatches : (f w.state).batches = w.state.batches.modify b g)
    (htables : (f w.state).tables = w.state.tables) (hbuses : (f w.state).buses = w.state.buses)
    (hnames : (f w.state).directory.batches = w.state.directory.batches)
    (hserial : w.state.serial ≤ (f w.state).serial)
    (hhandler : ∀ batch, (g batch).handler = batch.handler)
    (hendpoint : ∀ batch, (g batch).endpoint = batch.endpoint) :
    UsesOnlyIfTame (some b) w (w.alter f) := by
  refine fun hw => .of_own (.alter ?_) hw hbatches hnames (.of_same rfl) hendpoint fun htracks => ?_
  · exact .of_batch hbatches htables hbuses hnames hserial hhandler hendpoint
  · rw [hhandler]
    exact htracks

/-- The value of a batch is nothing to its handler. -/
theorem of_dataStep (h : DataStep b w w') :
    Relation.ReflTransGen (UsesOnlyIfTame (some b)) w w' := by
  cases h with
  | detach | replace =>
      exact .single (.edit rfl rfl rfl rfl (Nat.le_refl _) (fun _ => rfl) fun _ => rfl)
  | attach => exact .single (.edit rfl rfl rfl rfl (Nat.le_succ _) (fun _ => rfl) fun _ => rfl)
  | noteAttached | noteTaken | noteDestroyed => exact .single (.note trivial)

end World.UsesOnlyIfTame

namespace Batch

theorem usesOnly_modifyTransfer (f : Transfer → Transfer) :
    UsesOnly (some b) (modifyTransfer b f) := by
  intro w
  rw [ensures_modifyTransfer]
  exact .single (.edit rfl rfl rfl rfl (Nat.le_refl _) (fun _ => rfl) fun _ => rfl)

/-- A handler takes the place of another one at once; the other one is destroyed after that. -/
theorem usesOnly_attachHandler (hplay : play.UsesOnlyAtHand) (action : HandlerAction)
    (captured : List (Key Endpoint)) (noisy : Bool) :
    UsesOnly (some b) (attachHandler play b action captured noisy) := by
  refine usesOnly_of_tame fun w hw => ?_
  have hattach : w.UsesOnly (some b)
      ((w.alter fun s => (s.detachHandler b).attachHandler b action captured noisy).note
        (.handlerAttached b w.state.serial)) := by
    refine .of_own (.attach action captured noisy (hw.loose b rfl).1) hw
      (Arena.modify_modify _ _ _ _) rfl (.cons rfl ?_) (fun _ => rfl) fun _ => ?_
    · simp [Occurrence.handled?]
    · simp [holds, State.detachHandler]
  unfold attachHandler
  simp only [ensures_bind, ensures_takeHandler?]
  cases hhandler : (w.state.batches.get b).handler with
  | none =>
      simp only [then_ok, ensures_bind, ensures_getState, ensures_modifyState, ensures_record]
      simp only [World.alter, State.detachHandler_of_none hhandler] at hattach
      exact hattach
  | some replaced =>
      simp only [then_ok, ensures_bind, ensures_getState, ensures_modifyState, ensures_record]
      have hnumber := hw.numbers b replaced hhandler
      have hgone : replaced.Departed b
          ((w.alter fun s => (s.detachHandler b).attachHandler b action captured noisy).note
            (.handlerAttached b w.state.serial)) := by
        refine ⟨Nat.lt_succ_of_lt hnumber, ?_⟩
        simp only [World.note_state, World.alter_state, State.attachHandler, State.detachHandler,
          Arena.modify_modify, Arena.get_modify_self _ _ _ (hw.loose b rfl).1, Function.comp,
          Option.map_some, ne_eq, Option.some.injEq]
        omega
      exact Ensures.mono (Handler.ensures_destroy_usesOnly hplay hattach.tame hgone)
        fun _ _ h => hattach.trans h

end Batch

/-! ## The end of a batch -/

namespace World

/-- The bus was told of the batch, or it gave up when the last reference on its endpoint went away
with the batch. -/
def Dismissed (play : Player) (w : World) (b : Key Batch) (e : Key Endpoint) : Prop :=
  (∃ m ∈ w.history, ∃ bus, m.occurrence = .batchFarewell bus b) ∨
    ∃ w₁ : World, (Batch.givenUp b e w₁).history <:+ w.history ∧
      (Endpoint.release play e).Faults (Batch.givenUp b e w₁)

theorem Dismissed.of_suffix {e : Key Endpoint} (h : w.Dismissed play b e)
    (hsuffix : w.history <:+ w'.history) :
    w'.Dismissed play b e := by
  rcases h with ⟨m, hm, hfarewell⟩ | ⟨w₁, hearly, hfaults⟩
  · exact .inl ⟨m, hsuffix.subset hm, hfarewell⟩
  · exact .inr ⟨w₁, hearly.trans hsuffix, hfaults⟩

/-- What comes to pass with a batch in hands until it is released.  It has the handler that it has
by the record, and when it is no longer on its endpoint, its bus was told. -/
structure Nears (play : Player) (b : Key Batch) (w w' : World) : Prop
    extends TouchesOnly (some b) w w' where
  tracks : w.Tracks b → w'.Tracks b
  dismissed : ∀ e, (w.state.batches.get b).endpoint = some e →
    (w'.state.batches.get b).endpoint = some e ∨ w'.Dismissed play b e

theorem UsesOnly.nears (h : w.UsesOnly (some b) w') : w.Nears play b w' :=
  ⟨h.toTouchesOnly, h.tracks b rfl, fun _ he => .inl ((h.stays b rfl).trans he)⟩

theorem Nears.trans {w'' : World} (h : w.Nears play b w') (h' : w'.Nears play b w'') :
    w.Nears play b w'' := by
  refine ⟨h.toTouchesOnly.trans h'.toTouchesOnly, fun htracks => h'.tracks (h.tracks htracks),
    fun e he => ?_⟩
  rcases h.dismissed e he with he' | hdismissed
  · exact h'.dismissed e he'
  · exact .inr (hdismissed.of_suffix h'.suffix)

/-- How a batch ends: it is released, and what it has then is destroyed after that. -/
inductive Departs (play : Player) (b : Key Batch) (w : World) : World → Prop where
  | intro {w₁ w₂ : World} (hnears : w.Nears play b w₁)
      (hnone : (w₁.state.batches.get b).endpoint = none) (hsheds : w₁.TouchesOnly (some b) w₂)
      (hholds : Batch.holds b w₂.history = Batch.holds b w₁.history)
      (hdestroyed : ∀ n, (w₁.state.batches.get b).handler.map (·.serial) = some n →
        ∃ m earlier lastWords, m :: earlier <:+ w₂.history ∧ w₁.history <:+ earlier ∧
          m.occurrence = .handlerDestroyed b n lastWords)
      (hempty : (w₂.note (.batchEnded b)).Ended b) :
      Departs play b w (w₂.note (.batchEnded b))

theorem Nears.departs {w₁ : World} (h : w.Nears play b w₁) (h' : w₁.Departs play b w') :
    w.Departs play b w' := by
  obtain ⟨hnears, hnone, hsheds, hholds, hdestroyed, hempty⟩ := h'
  exact .intro (h.trans hnears) hnone hsheds hholds hdestroyed hempty

/-- A batch that ended is no longer in anybody's hands. -/
theorem TouchesOnly.departed {w₁ : World} (h : w.TouchesOnly (some b) w₁)
    (h' : w₁.Departs play b w')
    (hb : ¬ w.Loose b) :
    w.TouchesOnly none w' := by
  obtain ⟨hnears, hnone, hsheds, hholds, hdestroyed, hempty⟩ := h'
  exact ((h.trans hnears.toTouchesOnly).trans hsheds).settle hb hempty

end World

namespace Batch

/-- The handler of a batch that finishes leaves it and is invoked at once. -/
theorem ensures_deliver_nears (hplay : play.UsesOnlyAtHand) (hw : w.Tame (some b))
    (hfinishing : ∃ m ∈ w.history, m.occurrence = .finishing b) :
    Ensures (deliver play b) w fun _ w' => w.Nears play b w' := by
  unfold deliver
  rw [ensures_bind, ensures_takeHandler?]
  cases hhandler : (w.state.batches.get b).handler with
  | none => exact (World.UsesOnly.refl hw).nears
  | some handler =>
      simp only [then_ok, ensures_bind, ensures_getState, ensures_modifyTransfer, Handler.invoke,
        ensures_record]
      have hloose := hw.loose b rfl
      have hinvoke : ∀ t c, w.Nears play b
          ((w.alter fun s => (s.detachHandler b).setTransfer b t).note
            (.handlerInvoked b handler.serial handler.name? c)) := by
        intro t c
        refine ⟨.of_own (.invoke t c hhandler hloose.2 hfinishing) hw
          (Arena.modify_modify _ _ _ _) rfl (.cons rfl ?_), fun _ => ?_, fun e he => .inl ?_⟩
        · simp [Occurrence.handled?]
        · refine .of_modify hloose (Arena.modify_modify _ _ _ _) ?_
          simp [holds]
        · refine Eq.trans (congrArg (fun batches => (batches.get b).endpoint)
            (Arena.modify_modify _ _ _ _)) ?_
          exact Eq.trans (Arena.apply_get_modify _ b b _ Batch.endpoint fun _ => rfl) he
      have hgone : ∀ t c, handler.Departed b
          ((w.alter fun s => (s.detachHandler b).setTransfer b t).note
            (.handlerInvoked b handler.serial handler.name? c)) := by
        refine fun t c => ⟨hw.numbers b handler hhandler, ?_⟩
        simp only [World.note_state, World.alter_state, State.setTransfer, State.detachHandler,
          Arena.modify_modify, Arena.get_modify_self _ _ _ hloose.1]
        simp
      refine Ensures.mono (Handler.ensures_used hplay (hinvoke _ _).tame (hgone _ _) _)
        fun r w' hr => ?_
      have hworked := (hinvoke _ _).trans hr.nears
      cases r with
      | error fault => exact hworked
      | ok error? =>
          cases error? with
          | none => exact hworked
          | some error =>
              have hfailed : UsesOnly (some b) (record (.handlerFailed b error)) :=
                fun _ => .single (.note trivial)
              exact Ensures.mono (hfailed.ensures hworked.tame)
                fun _ _ hr => hworked.trans hr.nears

/-- The bus is told of a batch that left its endpoint. -/
theorem ensures_told (hplay : play.UsesOnlyAtHand) {bus : Key Bus} (hleft : w.Left b bus)
    (hw : w.Tame (some b)) :
    Ensures (do
      let reply ← Bus.batchFarewell play bus b
      record (.batchReleased b reply)) w fun _ w' => w.UsesOnly (some b) w' ∧
        ∃ m ∈ w'.history, m.occurrence = .batchFarewell bus b := by
  have hcall : w.UsesOnly (some b) (w.called bus (.batchFarewell bus b)) := by
    refine .of_call rfl (fun b' hb' => ?_) hw
    obtain rfl := (Occurrence.batchFarewell.inj hb').2
    exact hleft
  have hplays : Ensures (Bus.batchFarewell play bus b) w fun _ w' => w.UsesOnly (some b) w' ∧
      ∃ m ∈ w'.history, m.occurrence = .batchFarewell bus b := by
    unfold Bus.batchFarewell
    simp only [ensures_bind, Bus.ensures_nextHook, ensures_record, then_ok]
    cases (w.state.buses.get bus).plan.batchDestroy.current? with
    | none => exact ⟨hcall, _, List.mem_cons_self, rfl⟩
    | some hook =>
        have hhook : UsesOnly (some b) (do
            play.run (some b) hook.code
            return hook.reply) := (hplay.run hook.code).bind fun _ => follows_pure _
        exact Ensures.mono (hhook.ensures hcall.tame) fun _ _ h =>
          ⟨hcall.trans h, _, h.suffix.subset List.mem_cons_self, rfl⟩
  rw [ensures_bind]
  refine Ensures.mono hplays fun r w₁ hr => ?_
  obtain ⟨h₁, m, hm, ho⟩ := hr
  cases r with
  | error fault => exact ⟨h₁, m, hm, ho⟩
  | ok reply =>
      exact ⟨h₁.trans (.of_step (.note trivial) h₁.tame rfl rfl (.cons rfl rfl)),
        m, List.mem_cons_of_mem _ hm, ho⟩

/-- A release takes the endpoint away from the batch, and the bus is told that is left by that. -/
theorem ensures_release_nears (hplay : play.UsesOnlyAtHand) (hw : w.Tame (some b)) :
    Ensures (release play b) w fun _ w' =>
      w.Nears play b w' ∧ (w'.state.batches.get b).endpoint = none := by
  have hloose := hw.loose b rfl
  unfold release
  simp only [ensures_bind, ensures_getState, then_ok]
  split
  · next he => exact ⟨(World.UsesOnly.refl hw).nears, he⟩
  · next e he =>
      simp only [ensures_bind, ensures_modifyState, ensures_record, then_ok]
      have hgiven : w.TouchesOnly (some b) (givenUp b e w) :=
        .of_own (.giveUp he) hw rfl rfl (.cons rfl (by simp [Occurrence.handled?]))
      have htracks : w.Tracks b → (givenUp b e w).Tracks b := fun h => .of_modify hloose rfl h
      have hnone : ((givenUp b e w).state.batches.get b).endpoint = none :=
        congrArg Batch.endpoint (Arena.get_modify_self _ _ _ hloose.1)
      refine Ensures.mono ((UsesOnly.ensures (hplay.walk.release e) hgiven.tame).and
        (ensures_faults _ _)) fun r w₁ h₁ => ?_
      obtain ⟨h₁, hfaults⟩ := h₁
      -- whatever is left to do, the endpoint is gone
      have hdone : ∀ w', w₁.UsesOnly (some b) w' → w'.Dismissed play b e →
          w.Nears play b w' ∧ (w'.state.batches.get b).endpoint = none := by
        intro w' h' hdismissed
        refine ⟨⟨(hgiven.trans h₁.toTouchesOnly).trans h'.toTouchesOnly,
          fun h => h'.tracks b rfl (h₁.tracks b rfl (htracks h)), fun e' he' => .inr ?_⟩, ?_⟩
        · obtain rfl := Option.some.inj (he.symm.trans he')
          exact hdismissed
        · exact ((h'.stays b rfl).trans (h₁.stays b rfl)).trans hnone
      cases r with
      | error fault =>
          exact hdone w₁ (.refl h₁.tame) (.inr ⟨w, h₁.suffix, hfaults.mp ⟨fault, rfl⟩⟩)
      | ok _ =>
          have hleft : w₁.Left b (w.state.busOf e) :=
            ⟨_, h₁.suffix.subset List.mem_cons_self, e, rfl, rfl⟩
          rw [then_ok]
          refine Ensures.mono (ensures_told hplay hleft h₁.tame) fun r w' hr => ?_
          obtain ⟨huses, m, hm, ho⟩ := hr
          exact hdone w' huses (.inl ⟨m, hm, _, ho⟩)

/-- When its endpoint is gone, the handler of a batch goes, and nobody else touches the batch. -/
theorem ensures_shedHandler (hplay : play.UsesOnlyAtHand) (hw : w.Tame (some b))
    (hnone : (w.state.batches.get b).endpoint = none) :
    Ensures (do
      match ← takeHandler? b with
      | none => pure ()
      | some h => h.destroy play b) w fun _ w' => w.TouchesOnly (some b) w' ∧
        w'.state.batches.get b = { w.state.batches.get b with handler := none } ∧
        holds b w'.history = holds b w.history ∧
        ∀ n, (w.state.batches.get b).handler.map (·.serial) = some n →
          ∃ m earlier lastWords, m :: earlier <:+ w'.history ∧ w.history <:+ earlier ∧
            m.occurrence = .handlerDestroyed b n lastWords := by
  rw [ensures_bind, ensures_takeHandler?]
  cases h : (w.state.batches.get b).handler with
  | none => exact ⟨.refl hw, by rw [← h], rfl, by simp⟩
  | some handler =>
      simp only [then_ok]
      have hshed : w.TouchesOnly (some b) (w.alter (·.detachHandler b)) :=
        .of_own (.shed hnone) hw rfl rfl (.of_same rfl)
      refine Ensures.mono (handler.ensures_destroyed hplay hshed.tame.none) fun r w' hr => ?_
      obtain ⟨w₁, lastWords, h₁, rfl⟩ := hr
      obtain ⟨-, hsame, hspares⟩ := h₁.secluded b (by simp) (hshed.tame.loose b rfl)
      have hbeside := h₁.beside hshed.tame
      have hgone : handler.Departed b (w.alter (·.detachHandler b)) := by
        refine ⟨hw.numbers b handler h, ?_⟩
        simp [State.detachHandler, Arena.get_modify_self _ _ _ (hw.loose b rfl).1]
      have hdestroyed := Handler.usesOnly_destroyed hbeside.tame
        (hgone.of_touchesOnly (hshed.tame.loose b rfl) h₁) lastWords
      refine ⟨(hshed.trans hbeside.toTouchesOnly).trans hdestroyed.toTouchesOnly, hsame.trans ?_,
        hspares.holds_eq, ?_⟩
      · exact Arena.get_modify_self _ _ _ (hw.loose b rfl).1
      · intro n hn
        obtain rfl := Option.some.inj hn
        exact ⟨_, w₁.history, lastWords, List.suffix_refl _, h₁.suffix, rfl⟩

/-- A batch that ends loses its value, and nobody else touches the batch. -/
theorem ensures_shedData (hplay : play.UsesOnlyAtHand) (hw : w.Tame (some b)) :
    Ensures (do
      match ← takeData? b with
      | none => pure ()
      | some a => a.destroy play b) w fun _ w' => w.TouchesOnly (some b) w' ∧
        w'.state.batches.get b = { w.state.batches.get b with data := none } ∧
        holds b w'.history = holds b w.history := by
  rw [ensures_bind, ensures_takeData?]
  cases h : (w.state.batches.get b).data with
  | none => exact ⟨.refl hw, by rw [← h], rfl⟩
  | some a =>
      simp only [then_ok]
      have htaken : w.TouchesOnly (some b) (w.alter (·.detachData b)) :=
        .of_own (.alter (.of_batch rfl rfl rfl rfl (Nat.le_refl _) (fun _ => rfl) fun _ => rfl)) hw
          rfl rfl (.of_same rfl)
      refine Ensures.mono ((a.usesOnly_destroy hplay).ensures htaken.tame.none) fun r w' hr => ?_
      obtain ⟨-, hsame, hspares⟩ := hr.secluded b (by simp) (htaken.tame.loose b rfl)
      refine ⟨htaken.trans (hr.beside htaken.tame).toTouchesOnly, hsame.trans ?_, hspares.holds_eq⟩
      exact Arena.get_modify_self _ _ _ (hw.loose b rfl).1

theorem ensures_endAfter_departs (hplay : play.UsesOnlyAtHand) {body : Run Unit}
    (hbody : Ensures body w fun _ w' => w.Nears play b w') :
    Ensures (endAfter play b body) w fun _ w' => w.Departs play b w' := by
  unfold endAfter destroyBelongings
  simp only [ensures_ensuring]
  refine Ensures.mono hbody fun _ w₁ h₁ => ?_
  refine Ensures.mono (ensures_release_nears hplay h₁.tame) fun _ w₂ h₂ => ?_
  obtain ⟨hreleased, hnone⟩ := h₂
  refine Ensures.mono (ensures_shedHandler hplay hreleased.tame hnone) fun _ w₃ h₃ => ?_
  obtain ⟨hshed, hhandler, hholds, hdestroyed⟩ := h₃
  refine Ensures.mono (ensures_shedData hplay hshed.tame) fun _ w₄ h₄ => ?_
  obtain ⟨hshed', hdata, hholds'⟩ := h₄
  rw [ensures_record]
  refine .intro (h₁.trans hreleased) hnone (hshed.trans hshed') (hholds'.trans hholds) ?_ ?_
  · intro n hn
    obtain ⟨m, earlier, lastWords, hm, hlater, ho⟩ := hdestroyed n hn
    exact ⟨m, earlier, lastWords, hm.trans hshed'.suffix, hlater, ho⟩
  · have hleft : w₄.state.batches.get b =
        { w₂.state.batches.get b with handler := none, data := none } := by
      rw [hdata, hhandler]
    exact ⟨(congrArg Batch.endpoint hleft).trans hnone, congrArg Batch.handler hleft,
      congrArg Batch.data hleft, _, List.mem_cons_self, rfl⟩

theorem ensures_finish_departs (hplay : play.UsesOnlyAtHand) (hw : w.Tame (some b)) :
    Ensures (finish play b) w fun _ w' => w.Departs play b w' := by
  refine ensures_endAfter_departs hplay ?_
  simp only [ensures_bind, ensures_record, then_ok]
  have hbegun : w.UsesOnly (some b) (w.note (.finishing b)) :=
    .of_step (.note trivial) hw rfl rfl (.cons rfl rfl)
  have hrest : ∀ w₁, (w.note (.finishing b)).UsesOnly (some b) w₁ →
      Ensures (deliver play b >>= fun _ => release play b) w₁ fun _ w' => w.Nears play b w' := by
    intro w₁ h₁
    rw [ensures_bind]
    refine Ensures.mono (ensures_deliver_nears hplay h₁.tame
      ⟨_, h₁.suffix.subset List.mem_cons_self, rfl⟩) fun r w₂ h₂ => ?_
    have hnears := (hbegun.trans h₁).nears.trans h₂
    cases r with
    | error fault => exact hnears
    | ok _ =>
        exact Ensures.mono (ensures_release_nears hplay h₂.tame) fun _ _ h =>
          hnears.trans h.1
  have hreset : UsesOnly (some b) (resetToggles play b) :=
    hplay.walk.resetOfBatch (fun _ _ => trivial) b
  refine Ensures.mono (hreset.ensures hbegun.tame) fun r w₁ h₁ => ?_
  cases r with
  | error fault => exact (hbegun.trans h₁).nears
  | ok outcome =>
      cases outcome with
      | ok _ =>
          rw [then_ok]
          exact hrest w₁ h₁
      | error error =>
          simp only [then_ok, ensures_bind, ensures_record]
          exact (ensures_bind _ _ _ _).mp
            (hrest _ (h₁.trans (.of_step (.note trivial) h₁.tame rfl rfl (.cons rfl rfl))))

/-- However a batch ends, it is released before what it owns goes away. -/
theorem Ending.ensures_departs (hplay : play.UsesOnlyAtHand) (hw : w.Tame (some b))
    (ending : Ending) :
    Ensures (ending.run play b) w fun _ w' => w.Departs play b w' := by
  cases ending with
  | finish => exact ensures_finish_departs hplay hw
  | abort =>
      have hcancel := (usesOnly_modifyTransfer (b := b) Transfer.cancel).ensures hw
      simp only [ensures_modifyTransfer] at hcancel
      simp only [Ending.run, Batch.abort, ensures_bind, ensures_modifyTransfer, then_ok]
      exact Ensures.mono (ensures_finish_departs hplay hcancel.tame) fun _ _ h =>
        hcancel.nears.departs h
  | destroy =>
      exact ensures_endAfter_departs hplay
        (Ensures.mono (ensures_release_nears hplay hw) fun _ _ h => h.1)
  | drop => exact ensures_endAfter_departs hplay (World.UsesOnly.refl hw).nears

end Batch

/-! ## The creation of a batch -/

/-- The batch that came into being meanwhile is in hands, if one did, and did not begin to end. -/
structure World.Brings (w : World) (b? : Option (Key Batch)) (w' : World) : Prop where
  touchesOnly : w.TouchesOnly b? w'
  fresh : ∀ b, b? = some b → w.state.batches.size ≤ b.index
  unspent : ∀ b, b? = some b → w'.Unspent b

namespace World.Brings

theorem none (h : w.TouchesOnly Option.none w') : w.Brings Option.none w' :=
  ⟨h, by simp, by simp⟩

/-- What was built is in nobody else's hands. -/
theorem not_loose (h : w.Brings (some b) w') : ¬ w.Loose b :=
  fun hloose => Nat.not_lt_of_le (h.fresh b rfl) hloose.1

theorem after {w₁ : World} {b? : Option (Key Batch)} (h : w.TouchesOnly Option.none w₁)
    (hsize : w.state.batches.size ≤ w₁.state.batches.size) (h' : w₁.Brings b? w') :
    w.Brings b? w' := by
  refine ⟨h.append h'.touchesOnly (by simp), fun b hb => ?_, h'.unspent⟩
  exact Nat.le_trans hsize (h'.fresh b hb)

theorem used {w₁ : World} (h : w.Brings (some b) w₁) (h' : w₁.UsesOnly (some b) w') :
    w.Brings (some b) w' := by
  refine ⟨h.touchesOnly.trans h'.toTouchesOnly, h.fresh, ?_⟩
  rintro b' hb'
  obtain rfl := Option.some.inj hb'
  exact h'.unspent b rfl (h.unspent b rfl)

end World.Brings

/-- Batches are never forgotten. -/
theorem LifecycleSteps.size_le (h : LifecycleSteps w w') :
    w.state.batches.size ≤ w'.state.batches.size := by
  by_contra hless
  -- otherwise the last batch would be lost
  have hkept : w'.state.batches.size < w'.state.batches.size :=
    kept_of_steps (I := fun v => w'.state.batches.size < v.state.batches.size)
      (fun _ _ hstep hsize => (hstep.endpoint_cases (b := ⟨_⟩) hsize).1) h
      (Nat.lt_of_not_le hless)
  exact Nat.lt_irrefl _ hkept

namespace Batch

/-- Nothing was recorded about the handler of a batch that comes into being, or about its end. -/
theorem without_nextKey (hw : w.Tame own) {P : Occurrence → Prop}
    (hP : ∀ o, P o → o.handled? = some w.state.batches.nextKey) :
    w.Without P :=
  fun m hm ho => Nat.lt_irrefl _ (hw.known m hm _ (hP _ ho))

/-- That a batch comes into being is nothing to other batches. -/
theorem brings_built (hw : w.Tame none) (e : Key Endpoint) :
    w.Brings (some w.state.batches.nextKey)
      ((w.alter (·.addBatch e)).note (.batchBuilt w.state.batches.nextKey e)) := by
  obtain ⟨new, hnew⟩ : ∃ new, new = w.state.batches.nextKey := ⟨_, rfl⟩
  have hlater : ∀ b : Key Batch, b.index < w.state.batches.size →
      b.index < (w.state.addBatch e).batches.size :=
    fun b hb => Nat.lt_of_lt_of_le hb (by simp [State.addBatch])
  have hlast : new.index < (w.state.addBatch e).batches.size := by
    rw [hnew]
    simp [State.addBatch, Arena.nextKey, Arena.size, Arena.push]
  have hne : ∀ b : Key Batch, b.index < w.state.batches.size → new ≠ b := by
    rintro b hb rfl
    exact Nat.lt_irrefl _ (hnew ▸ hb)
  have hspares : ∀ b, new ≠ b →
      w.Spares b ((w.alter (·.addBatch e)).note (.batchBuilt new e)) :=
    fun b hb => .cons rfl fun heq => hb (Option.some.inj heq)
  have hunspent : w.Unspent new := by
    refine without_nextKey hw ?_
    rintro o ⟨n, name?, c, rfl⟩
    exact congrArg some hnew
  have hunended : w.Unended new := by
    refine without_nextKey hw ?_
    rintro o rfl
    exact congrArg some hnew
  have hbuilt : w.Adds (fun o => o = .batchBuilt new e)
      ((w.alter (·.addBatch e)).note (.batchBuilt new e)) := .cons rfl rfl
  rw [← hnew]
  have hstep :
      LifecycleStep w ((w.alter (·.addBatch e)).note (.batchBuilt new e)) := hnew ▸ .build e
  refine ⟨⟨⟨hw.nodup, ?_, ?_, ?_, ?_, ?_, hstep.numbers hw.numbers⟩, List.suffix_cons _ _,
    .single hstep, ?_, ?_⟩, ?_, ?_⟩
  · exact fun b hb => hlater b (hw.exist b hb)
  · intro b hb
    obtain rfl := Option.some.inj hb
    exact ⟨hlast, fun hnamed => hne new (hw.exist new hnamed) rfl⟩
  · exact fun b hb => (hspares b (hne b (hw.exist b hb))).unspent (hw.unspent b hb)
  · rintro b (hb | hb)
    · exact (hspares b (hne b (hw.exist b hb))).unended (hw.unended b (.inl hb))
    · obtain rfl := Option.some.inj hb
      exact hunended.of_adds hbuilt (by simp)
  · intro m hm b hb
    rcases List.mem_cons.mp hm with rfl | hm
    · obtain rfl := Option.some.inj hb
      exact hlast
    · exact hlater b (hw.known m hm b hb)
  · intro b _ hloose
    exact ⟨⟨hlater b hloose.1, hloose.2⟩, w.state.batches.get_push_of_lt _ hloose.1,
      hspares b (hne b hloose.1)⟩
  · rintro b hb ⟨⟨hsize, hnamed⟩, hended⟩
    have hold : b.index < w.state.batches.size := by
      simp only [World.note_state, World.alter_state, State.addBatch, Arena.size_push] at hsize
      refine Nat.lt_of_le_of_ne (Nat.le_of_lt_succ hsize) fun heq => hb ?_
      rw [hnew]
      exact congrArg some (Key.ext heq.symm)
    refine ⟨⟨hold, hnamed⟩, fun hended' => hended (hended'.of_suffix ?_ (List.suffix_cons _ _))⟩
    exact w.state.batches.get_push_of_lt _ hold
  · intro b hb
    obtain rfl := Option.some.inj hb
    exact Nat.le_of_eq (hnew ▸ rfl)
  · intro b hb
    obtain rfl := Option.some.inj hb
    exact hunspent.of_adds hbuilt (by simp)

theorem ensures_build_brings (hplay : play.UsesOnlyAtHand) (hw : w.Tame none)
    (e : Key Endpoint) :
    Ensures (build e) w fun r w' => w.Brings r.toOption w' := by
  unfold build
  rw [ensures_bind]
  have hacquire : UsesOnly none (Endpoint.acquire e) := hplay.walk.acquire e
  refine Ensures.mono (hacquire.ensures hw) fun r w₁ h₁ => ?_
  cases r with
  | error fault => exact .none h₁.toTouchesOnly
  | ok _ =>
      simp only [then_ok, ensures_bind, ensures_getState, ensures_modifyState, ensures_record,
        ensures_pure]
      exact .after h₁.toTouchesOnly h₁.steps.size_le (brings_built h₁.tame e)

end Batch

namespace Bus

/-- A bus that fails after it built a batch leaves none behind. -/
theorem ensures_buildBatch_brings (hplay : play.UsesOnlyAtHand) (hw : w.Tame none) (bus : Key Bus)
    (e : Key Endpoint) :
    Ensures (buildBatch play bus e) w fun r w' =>
      w.Brings (r.toOption.bind fun answer => answer.bind (·.toOption)) w' := by
  unfold buildBatch
  simp only [ensures_bind, ensures_nextHook, ensures_record, then_ok]
  obtain ⟨w₁, hw₁⟩ : ∃ w₁, w₁ = w.called bus (.batchRequested bus e) := ⟨_, rfl⟩
  have hcalled :
      w.TouchesOnly none w₁ := hw₁ ▸ (World.UsesOnly.of_call rfl (by simp) hw).toTouchesOnly
  have hscript : ∀ (code : Option Script) (answer : Option (Except UsbError (Key Batch))),
      answer.bind (·.toOption) = none →
        Ensures (play.run none code >>= fun _ => pure answer) w₁ fun r w' =>
          w.Brings (r.toOption.bind fun answer => answer.bind (·.toOption)) w' := by
    intro code answer hnone
    have hrun : UsesOnly none (play.run none code) := hplay.run code
    rw [ensures_bind]
    refine Ensures.mono (hrun.after hcalled.usesOnly) fun r w' hr => ?_
    cases r with
    | error fault => exact .none hr.toTouchesOnly
    | ok _ =>
        change w.Brings (answer.bind (·.toOption)) w'
        rw [hnone]
        exact .none hr.toTouchesOnly
  change Ensures _ (w.called bus (.batchRequested bus e)) _
  rw [← hw₁]
  split
  · exact .none hcalled
  · next hook _ =>
      split
      · exact hscript hook.code none rfl
      · next error _ => exact hscript hook.code (some (.error error)) rfl
      · next on _ =>
          simp only [ensures_bind, ensures_getState, then_ok]
          refine Ensures.mono (Batch.ensures_build_brings hplay hcalled.tame _) fun r w₂ h₂ => ?_
          cases r with
          | error fault => exact .after hcalled hcalled.steps.size_le h₂
          | ok b =>
              have hbuilt : w.Brings (some b) w₂ := .after hcalled hcalled.steps.size_le h₂
              simp only [then_ok, ensures_bind, ensures_onFault]
              refine Ensures.mono ((hplay.run hook.code).ensures hbuilt.touchesOnly.tame)
                fun r w₃ h₃ => ?_
              cases r with
              | ok _ => exact hbuilt.used h₃
              | error fault =>
                  refine Ensures.mono (Batch.Ending.ensures_departs hplay h₃.tame .drop)
                    fun _ w₄ h₄ => ?_
                  exact .none ((hbuilt.used h₃).touchesOnly.departed h₄ hbuilt.not_loose)

end Bus

namespace Batch

theorem ensures_create_brings (hplay : play.UsesOnlyAtHand) (hw : w.Tame none) (e : Key Endpoint) :
    Ensures (create play e) w fun r w' => w.Brings (r.toOption.bind (·.toOption)) w' := by
  unfold create
  simp only [ensures_bind, ensures_getState, then_ok]
  refine Ensures.mono (Bus.ensures_buildBatch_brings hplay hw _ e) fun r w₁ h₁ => ?_
  have hcreated : ∀ (b : Key Batch) (bus : Key Bus) {w₂ : World}, w.Brings (some b) w₂ →
      w.Brings (some b) (w₂.note (.batchCreated b bus)) := fun b bus w₂ h =>
    h.used (.of_step (.note trivial) h.touchesOnly.tame rfl rfl (.cons rfl rfl))
  cases r with
  | error fault => exact h₁
  | ok answer =>
      rw [then_ok]
      split
      · exact h₁
      · next b => exact hcreated b _ h₁
      · rw [ensures_bind]
        refine Ensures.mono (ensures_build_brings hplay h₁.touchesOnly.tame e) fun r w₂ h₂ => ?_
        have hbuilt := World.Brings.after h₁.touchesOnly h₁.touchesOnly.steps.size_le h₂
        cases r with
        | error fault => exact hbuilt
        | ok b => exact hcreated b _ hbuilt

end Batch
end UsbTransfer
