import UsbTransfer.Creation
import UsbTransfer.Proofs.Endings

/-!
# The creation of a batch, step by step

A batch that was just built belongs to the operation that built it: it has no name, nobody has it
in hands, and it is on its endpoint.  It stays so while the code of a bus has it at hand, and when
that code gives up, the batch is dropped.
-/

namespace UsbTransfer

open Run

namespace State.Sound

variable {s : State}

/-- An endpoint whose handle is in use has references. -/
theorem references_pos_of_loan (hs : s.Sound) {handle : Handle}
    (hloan : handle ∈ s.directory.loans) :
    0 < (s.endpoints.get handle.endpoint).references := by
  refine hs.counted.references_pos ?_
  by_cases hnamed : handle ∈ s.directory.handles.values
  · exact State.handlesOn_pos_of_named hnamed
  · have hstranded : handle.endpoint ∈ s.stranded :=
      List.mem_map_of_mem (List.mem_filter.mpr
        ⟨List.mem_dedup.mpr hloan, decide_eq_true hnamed⟩)
    have hcount := List.count_pos_iff.mpr hstranded
    have hbacked := hs.backed handle.endpoint
    unfold State.handlesOn
    omega

theorem references_pos_of_find? (hs : s.Sound) {name : String} {handle : Handle}
    (hfind : s.directory.handles.find? name = some handle) :
    0 < (s.endpoints.get handle.endpoint).references :=
  hs.counted.references_pos (State.handlesOn_pos_of_named (Names.mem_values_of_find? hfind))

/-- A batch that does not exist yet has no name. -/
theorem nextKey_not_named (hs : s.Sound) :
    s.batches.nextKey ∉ s.directory.batches.values := by
  intro hnamed
  have hlive := hs.batchesLive _ hnamed
  rw [Arena.get_nextKey] at hlive
  exact absurd hlive (by simp [default])

end State.Sound

/-- The endpoint on which a batch is built when a bus is asked for one on an endpoint, as the
behaviour for this call has it, or the error with which the bus refuses. -/
def State.home (s : State) (bus : Key Bus) (e : Key Endpoint) :
    Except UsbError (Key Endpoint) :=
  match (s.buses.get bus).plan.batchCreate.current? with
  | none => .ok e
  | some hook =>
      match hook.reply with
      | .declined => .ok e
      | .failed error => .error error
      | .built on => .ok (((on.bind s.directory.handles.find?).map (·.endpoint)).getD e)

namespace World

/-- A bus is asked for a batch on an endpoint, and the behaviour for the call is used up. -/
def asked (w : World) (bus : Key Bus) (e : Key Endpoint) : World :=
  (w.alter (·.setPlan bus { (w.state.buses.get bus).plan with
    batchCreate := (w.state.buses.get bus).plan.batchCreate.advance })).note
      (.batchRequested bus e)

theorem asked_moves (hands : Hands) (w : World) (bus : Key Bus) (e : Key Endpoint) :
    Moves hands [] [] w (w.asked bus e) := by
  have hconsult : Moves hands [] [] w (w.alter (·.setPlan bus { (w.state.buses.get bus).plan with
      batchCreate := (w.state.buses.get bus).plan.batchCreate.advance })) :=
    .consult ⟨rfl, rfl⟩
  exact hconsult.trans
    (.noteAside (o := .batchRequested bus e) .unlocked trivial rfl fun _ => rfl)

end World

namespace Batch

/-- An operation has a batch for itself, on its endpoint. -/
structure Own (hands : Hands) (b : Key Batch) (w : World) : Prop where
  mayEnd : hands.MayEnd b
  loose : w.Loose b
  endpoint : (w.state.batches.get b).endpoint.isSome

variable {α : Type} {play : Player} {hands : Hands} {w : World} {b : Key Batch} {e : Key Endpoint}

theorem Own.note (h : Own hands b w) (o : Occurrence) : Own hands b (w.note o) :=
  ⟨h.mayEnd, h.loose, h.endpoint⟩

/-- While user code has a batch at hand, it still belongs to the operation in progress. -/
theorem Own.lent {w' : World} {give take : List Item} (h : Own hands b w)
    (hmoves : Moves (hands.lend b) give take w w') :
    Own hands b w' := by
  have hlent : ¬ (hands.lend b).MayEnd b := by simp
  refine ⟨h.mayEnd, hmoves.changes.loose hlent h.loose, ?_⟩
  rw [hmoves.changes.endpoint_eq hlent h.loose]
  exact h.endpoint

theorem ensures_build (hw : w.Ready hands)
    (hreferences : 0 < (w.state.endpoints.get e).references) :
    Ensures (build e) w fun r w' =>
      r = .ok w.state.batches.nextKey ∧ Moves hands [] [] w w' ∧
        Own hands w.state.batches.nextKey w' ∧
          (w'.state.batches.get w.state.batches.nextKey).endpoint = some e := by
  have hacquire : Moves hands [] [.reference e] w
      ((w.alter (·.gainReference e)).note (.referenceTaken e)) :=
    .acquire hw.sound .unlocked hreferences
  have hbuild : Moves hands [.reference e] []
      ((w.alter (·.gainReference e)).note (.referenceTaken e)) _ := .build hacquire.spare_pos
  unfold build
  simp only [ensures_bind]
  rw [Endpoint.ensures_acquire hreferences]
  simp only [then_ok, ensures_bind, ensures_getState, ensures_modifyState, ensures_record,
    ensures_pure]
  have hendpoint : (((w.state.gainReference e).addBatch e).batches.get
      w.state.batches.nextKey).endpoint = some e :=
    congrArg Batch.endpoint ((w.state.batches.get_push _ _).trans (if_pos rfl))
  refine ⟨rfl, hacquire.cancel hbuild, ⟨?_, ⟨?_, ?_⟩, ?_⟩, hendpoint⟩
  · -- what is in hands exists already
    by_contra hmay
    exact absurd (hw.loose _ hmay).1 (Nat.lt_irrefl _)
  · simp [State.addBatch, State.gainReference, Arena.nextKey, Arena.size, Arena.push]
  · exact hw.sound.nextKey_not_named
  · exact Option.isSome_iff_exists.mpr ⟨e, hendpoint⟩

/-- A batch that its operation has for itself can be dropped. -/
theorem Own.drop_orderly (h : Own hands b w) (hplay : play.Fair) (hw : w.Ready hands) :
    Orderly hands Fault.Raised [] (fun _ => []) (drop play b) w :=
  ending_orderly hplay hw h.loose h.mayEnd h.endpoint .drop

/-- What comes of a request for a batch: the batch that was built, if one was. -/
def Supplied (hands : Hands) (w : World) (b? : Option (Key Batch)) (w' : World) : Prop :=
  Moves hands [] [] w w' ∧ ∀ b, b? = some b → Own hands b w'

/-- The answer to a request is the one that the behaviour of the bus tells: a batch on the endpoint
of its choice, an error, or nothing when the batch is left to be built plainly. -/
def Housed (home : Except UsbError (Key Endpoint)) (e : Key Endpoint) (w : World) :
    Option (Except UsbError (Key Batch)) → Prop
  | none => home = .ok e
  | some (.error error) => home = .error error
  | some (.ok b) => ∃ x, home = .ok x ∧ (w.state.batches.get b).endpoint = some x

/-- An outcome supplies the batch that its value holds, and a fault leaves no batch behind. -/
def Supplies (hands : Hands) (w : World) (home : α → World → Prop)
    (batch? : α → Option (Key Batch)) : Except Fault α → World → Prop
  | .ok answer, w' => Supplied hands w (batch? answer) w' ∧ home answer w'
  | .error fault, w' => Moves hands [] [] w w' ∧ fault.Raised

/-- A bus answers with a batch, an error or nothing. -/
theorem ensures_buildBatch (hplay : play.Fair) (hw : w.Ready hands) (bus : Key Bus)
    {handle : Handle} (hloan : handle ∈ w.state.directory.loans) :
    Ensures (Bus.buildBatch play bus handle.endpoint) w
      (Supplies hands (w.asked bus handle.endpoint)
        (fun answer w' =>
          Housed (w.state.home bus handle.endpoint) handle.endpoint w' answer)
        fun answer => answer.bind (·.toOption)) := by
  have hready := (World.asked_moves hands w bus handle.endpoint).ready hw
  unfold Bus.buildBatch
  simp only [ensures_bind, Bus.ensures_nextHook, ensures_record, then_ok]
  change Ensures _ (w.asked bus handle.endpoint) _
  unfold State.home
  -- the code of a bus that builds no batch runs, and then the bus answers
  have hscript : ∀ (code : Option Script) (home : Except UsbError (Key Endpoint))
      (answer : Option (Except UsbError (Key Batch))), answer.bind (·.toOption) = none →
      (∀ w', Housed home handle.endpoint w' answer) →
        Ensures (play.run none code >>= fun _ => pure answer) (w.asked bus handle.endpoint)
          (Supplies hands (w.asked bus handle.endpoint)
            (fun answer w' => Housed home handle.endpoint w' answer)
            fun answer => answer.bind (·.toOption)) := by
    intro code home answer hnone hhoused
    rw [ensures_bind]
    apply Ensures.mono (hplay.run_none hready code)
    intro r w' hr
    cases r with
    | ok _ => exact ⟨⟨hr.moves, fun b h => by simp [hnone] at h⟩, hhoused w'⟩
    | error fault => exact hr
  cases (w.state.buses.get bus).plan.batchCreate.current? with
  | none => exact ⟨⟨.refl _ _, by simp⟩, rfl⟩
  | some hook =>
      obtain ⟨code, reply⟩ := hook
      cases reply with
      | declined => exact hscript code _ none rfl fun _ => rfl
      | failed error => exact hscript code _ (some (.error error)) rfl fun _ => rfl
      | built on =>
          simp only [ensures_bind, ensures_getState, then_ok]
          obtain ⟨home, hhome⟩ : ∃ home, home =
            ((on.bind w.state.directory.handles.find?).map (·.endpoint)).getD handle.endpoint :=
              ⟨_, rfl⟩
          have hreferences : 0 < (w.state.endpoints.get home).references := by
            rw [hhome]
            cases hnamed : on.bind w.state.directory.handles.find? with
            | none => exact hw.sound.references_pos_of_loan hloan
            | some named =>
                obtain ⟨name, -, hfind⟩ := Option.bind_eq_some_iff.mp hnamed
                exact hw.sound.references_pos_of_find? hfind
          rw [show (w.asked bus handle.endpoint).state.directory = w.state.directory from rfl,
            ← hhome]
          apply Ensures.mono (ensures_build hready hreferences)
          intro r w₁ hr
          obtain ⟨rfl, hbuilt, hown, hendpoint⟩ := hr
          simp only [then_ok, ensures_bind, ensures_onFault]
          have hready₁ := hbuilt.ready hready
          apply Ensures.mono (hplay.run_some hready₁ hown.mayEnd.mayTouch hown.loose code)
          intro r w₂ hr
          have hown₂ := hown.lent hr.moves
          have hmoves := hbuilt.trans (hr.moves.within (hands.within_lend _))
          cases r with
          | ok _ =>
              refine ⟨⟨hmoves, fun b hb => ?_⟩, home, rfl, ?_⟩
              · obtain rfl := Option.some.inj hb
                exact hown₂
              · rw [hr.moves.changes.endpoint_eq (by simp) hown.loose]
                exact hendpoint
          | error fault =>
              apply Ensures.mono (hown₂.drop_orderly hplay (hmoves.ready hready))
              intro r' w₃ hr'
              exact ⟨hmoves.trans hr'.moves, hr.allowed⟩

/-- Whatever its bus answers, an endpoint gets its batch unless the bus refuses it. -/
theorem ensures_create (hplay : play.Fair) (hw : w.Ready hands)
    {handle : Handle} (hloan : handle ∈ w.state.directory.loans) :
    Ensures (create play handle.endpoint) w
      (Supplies hands (w.asked (w.state.busOf handle.endpoint) handle.endpoint)
        (fun answer w' => Housed
          (w.state.home (w.state.busOf handle.endpoint) handle.endpoint) handle.endpoint w'
            (some answer))
        (·.toOption)) := by
  have hasked := World.asked_moves hands w (w.state.busOf handle.endpoint) handle.endpoint
  unfold create
  simp only [ensures_bind, ensures_getState, then_ok]
  apply Ensures.mono (ensures_buildBatch hplay hw _ hloan)
  obtain ⟨asked, hdef⟩ : ∃ asked,
    asked = w.asked (w.state.busOf handle.endpoint) handle.endpoint := ⟨_, rfl⟩
  rw [← hdef] at hasked ⊢
  intro r w₁ hr
  have hcreated : ∀ (b : Key Batch) (w₂ : World), Moves hands [] [] asked w₂ → Own hands b w₂ →
      Supplied hands asked (some b)
        (w₂.note (.batchCreated b (w.state.busOf handle.endpoint))) := by
    intro b w₂ hmoves hown
    refine ⟨hmoves.trans (.noteOf (o := .batchCreated b _) trivial rfl hown.mayEnd.mayTouch
      (.inl rfl)), fun b' hb' => ?_⟩
    obtain rfl := Option.some.inj hb'
    exact hown.note _
  cases r with
  | error fault => exact hr
  | ok answer =>
      obtain ⟨⟨hmoves, hown⟩, hhoused⟩ := hr
      rw [then_ok]
      split
      · exact ⟨⟨hmoves, hown⟩, hhoused⟩
      · next b =>
          simp only [ensures_bind, ensures_record, then_ok, ensures_pure]
          exact ⟨hcreated b w₁ hmoves (hown b rfl), hhoused⟩
      · have hloan₁ : handle ∈ w₁.state.directory.loans := by
          rw [hmoves.loans, hasked.loans]
          exact hloan
        have hready₁ := (hasked.trans hmoves).ready hw
        simp only [ensures_bind]
        apply Ensures.mono (ensures_build hready₁
          (hready₁.sound.references_pos_of_loan hloan₁))
        intro r w₂ hr
        obtain ⟨rfl, hbuilt, hown₂, hendpoint⟩ := hr
        simp only [then_ok, ensures_bind, ensures_record, ensures_pure]
        exact ⟨hcreated _ w₂ (hmoves.trans hbuilt) hown₂, handle.endpoint, hhoused, hendpoint⟩

end Batch

end UsbTransfer
