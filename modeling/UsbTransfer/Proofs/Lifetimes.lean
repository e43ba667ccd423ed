import UsbTransfer.Proofs.Sessions
import UsbTransfer.Proofs.Traces

/-!
# Ordered ends

Unless user code gives up meanwhile, a batch ends in one order, whichever way it ends.  It has
toggles reset, hands over its completion, gives up its endpoint, has its bus told, and loses the
handler that was not invoked and the value that nobody took.  Others run only inside of these
steps, and none of the steps is made twice.
-/

namespace UsbTransfer

open Run

namespace Run

theorem settled_eq_ok {α : Type} {r : Except Fault α} {r' : Except Fault Unit} {a : α} :
    settled r r' = .ok a ↔ r = .ok a ∧ r' = .ok () := by
  cases r with
  | error fault => simp
  | ok _ =>
      cases r' with
      | error fault => simp
      | ok _ => simp [settled]

end Run

/-- The world in which a batch has lost its name. -/
def World.unname (w : World) (name : String) : World :=
  w.alter (·.setDirectory fun d => { d with batches := d.batches.erase name })

namespace Batch

variable {play : Player} {hands : Hands} {w w' : World} {b : Key Batch}

/-- Unless its bus gives up, a batch that finishes invokes its handler. -/
theorem Ending.Begins.not_interrupted {ending : Ending}
    (h : ending.Begins play hands b w (.ok ()) w') :
    ¬ ending.Interrupted play b w := by
  have hreturns : ∀ {w : World}, Completes play hands b w (.ok ()) w' →
      ¬ (resetToggles play b).Faults (w.note (.finishing b)) := by
    intro w h
    cases h with
    | reset hreturns => exact hreturns
    | unreset hreturns => exact hreturns
  cases ending with
  | finish | abort => exact fun hinterrupted => hreturns h hinterrupted.2
  | destroy | drop => exact fun hinterrupted => hinterrupted.1

/-- The order in which a batch ends.  Before the release it is on its endpoint, and what is
recorded then is determined by the way in which it ends, its plain data and its handler.  One
reference goes away; only if that is the last one the bus of the endpoint is told of that, and
what follows happens aside of the batch.  Then the bus is told of the batch, which is without an
endpoint.  What is left goes away last. -/
inductive EndsInOrder (ending : Ending) (b : Key Batch) (w : World) : World → Prop where
  | intro {e : Key Endpoint} {met : Encounter} {plan : BusPlan Script} {reply : FarewellReply}
      {onEndpoint onBus inHandler inData : List Occurrence} {w₁ w₂ w₃ w₄ w₅ : World}
      (he : (w.state.batches.get b).endpoint = some e)
      (htarget : (w.state.transferOf b).target = w.state.targetOf e)
      (hopening : w.Trace (ending.opening b (w.state.busOf e) (w.state.transferOf b) met) w₁)
      (hinvoked : ending.Finishes → met.invoked = (w.state.batches.get b).handler)
      (hkept : (w₁.state.batches.get b).endpoint = some e)
      (hloses : (givenUp b e w₁).Loses e w₂)
      (hendpoint : w₂.Trace onEndpoint w₃)
      (hshared : 1 < (w₁.state.endpoints.get e).references → w₃ = w₂)
      (hnone : (w₃.state.batches.get b).endpoint = none)
      (hbus : ((w₃.alter (·.setPlan (w.state.busOf e) plan)).note
        (.batchFarewell (w.state.busOf e) b)).Trace onBus w₄)
      (hsteps : ∀ o ∈ onBus, ¬ o.StepOf b)
      (hleft : (w₄.note (.batchReleased b reply)).Trace
        (shedding inHandler ((w₄.state.batches.get b).handler.map (·.destroyed b)) ++
          shedding inData ((w₄.state.batches.get b).data.map (·.destroyed b))) w₅)
      (haside : AsideOf b (met.inReset ++ met.inHandler ++ onEndpoint ++ inHandler ++ inData))
      (hempty : w₅.state.batches.get b =
        { w₄.state.batches.get b with handler := none, data := none }) :
      EndsInOrder ending b w (w₅.note (.batchEnded b))

theorem Course.inOrder {ending : Ending} (h : Course play hands b (ending.Begins play hands b w)
    (.ok ()) w') (hw : w.state.Sound) (hb : hands.MayEnd b) (hloose : w.Loose b)
    (hlive : (w.state.batches.get b).endpoint.isSome) :
    EndsInOrder ending b w w' := by
  obtain ⟨e, he⟩ := Option.isSome_iff_exists.mp hlive
  generalize hr : (Except.ok () : Except Fault Unit) = r at h
  obtain @⟨r₁, r₂, r₃, r₄, w₁, w₅, w₆, w₇, hbegin, hrelease, hhandler, hdata⟩ := h
  obtain ⟨hbefore, hafter⟩ := settled_eq_ok.mp hr.symm
  obtain ⟨rfl, rfl⟩ := settled_eq_ok.mp hbefore
  obtain ⟨hmoves, hendpoint, hloose₁⟩ := hbegin.moves hw hb hloose
  obtain ⟨met, haside, hopening, hinvokes, -⟩ := hbegin.trace hloose he
  have hbus : w₁.state.busOf e = w.state.busOf e :=
    (hmoves.changes.busOf_eq (hw.index_lt_of_endpoint he)).1
  obtain ⟨-, hloose₅⟩ := hrelease.rest hloose₁
  cases hrelease with
  | before hnone => simp [hendpoint, he] at hnone
  | @done e' plan reply w₂ w₃ w₄ he' _ hloses hwork hshared _ htold =>
      obtain rfl := Option.some.inj ((hendpoint.trans he).symm.trans he')
      obtain ⟨onEndpoint, honEndpoint, hnested⟩ := lost_trace hloose₁ hloses hwork
      obtain ⟨onBus, hsteps, honBus⟩ := told_trace hloose₁ hloses hwork htold
      obtain ⟨inHandler, hinHandler, hshed⟩ := hhandler.trace hloose₅
      obtain ⟨hsame, hloose₆⟩ := hhandler.rest_handler hloose₅
      obtain ⟨inData, hinData, hshed'⟩ := hdata.trace hloose₆
      rw [handlerOf, Option.map_map] at hshed
      rw [dataOf, Option.map_map, hsame] at hshed'
      rw [hbus] at honBus
      refine .intro he ?_ hopening ?_ (hendpoint.trans he) hloses hnested hshared
        (congrArg Batch.endpoint (lost_rest hloose₁ hloses hwork).1) honBus hsteps
        (hshed.trans hshed') ?_ ?_
      · exact congrArg Descriptor.target (hw.described b e he)
      · intro hfinishes
        rw [hinvokes.2 hbegin.not_interrupted, if_pos hfinishes]
      · intro o ho
        simp only [List.mem_append] at ho haside
        rcases ho with (((ho | ho) | ho) | ho) | ho
        · exact haside o (List.mem_append_left _ ho)
        · exact haside o (List.mem_append_right _ ho)
        · exact honEndpoint o ho
        · exact hinHandler o ho
        · exact hinData o ho
      · rw [(hdata.rest_data hloose₆).1, hsame]
        rfl

end Batch

namespace Session

variable {w : World}

/-- A named batch loses its name before it ends. -/
theorem ensures_endBatch {name : String} {b : Key Batch} {ending : Key Batch → Run Unit}
    (hfind : w.state.directory.batches.find? name = some b)
    (Q : Except Fault Result → World → Prop) :
    Ensures (endBatch name ending) w Q ↔
      Ensures (ending b) (w.unname name) fun r w' => Q (r.map fun _ => .ok .done) w' := by
  have hanswer : Then (fun _ => pure (.ok .done)) Q =
      fun (r : Except Fault Unit) w' => Q (r.map fun _ => .ok .done) w' := by
    funext r w'
    cases r <;> rfl
  unfold endBatch
  rw [ensures_bind, ensures_takeBatch_of_named hfind, then_ok, ensures_bind, hanswer]
  rfl

/-- Without its name the batch belongs to the operation that ends it. -/
theorem Reachable.own_unnamed (h : Reachable w) {name : String} {b : Key Batch}
    (hfind : w.state.directory.batches.find? name = some b) :
    Moves Hands.empty [] [] w (w.unname name) ∧ Batch.Own Hands.empty b (w.unname name) :=
  ⟨.unnameBatch hfind, own_of_erased h.ready hfind fun _ h => .inl h⟩

/-- However user code comes to end a batch by its name: if it does not give up meanwhile, the batch
ends in order. -/
theorem Reachable.ends_in_order (h : Reachable w) (name : String) {b : Key Batch}
    (hfind : w.state.directory.batches.find? name = some b) (limit : Nat)
    (ending : Batch.Ending) :
    Ensures (endBatch name fun b => ending.run (player limit) b) w fun r w' =>
      match r with
      | .ok result => result = .ok .done ∧ Batch.EndsInOrder ending b (w.unname name) w'
      | .error fault => fault.Raised := by
  obtain ⟨hunname, hown⟩ := h.own_unnamed hfind
  have hready := hunname.ready h.ready
  rw [ensures_endBatch hfind]
  apply Ensures.mono (Batch.ensures_ending (player_fair limit) hready hown.loose hown.mayEnd
    ending)
  intro r w' hcourse
  cases r with
  | error fault => exact hcourse.allowed hown.endpoint
  | ok _ =>
      exact ⟨rfl, hcourse.inOrder hready.sound hown.mayEnd hown.loose hown.endpoint⟩

/-- A transfer fails, its bus builds another batch when it is asked to reset toggles, and a handler
is invoked. -/
theorem ends_in_order_failed :
    ∃ w w', Reachable w ∧ w.state.directory.batches.find? "transfer" = some ⟨0⟩ ∧
      endBatch "transfer" (Batch.Ending.finish.run (player 1)) w = .ok (.ok .done) w' ∧
      Batch.EndsInOrder .finish ⟨0⟩ (w.unname "transfer") w' := by
  have hreachable : Reachable (after 1
      [.addBus "hub" { BusPlan.bare Script with
          toggleReset := ⟨[⟨some [.newBatch "pipe" "other"], ⟨none, .declined⟩⟩]⟩ },
        .addEndpoint "hub" default "pipe", .newBatch "pipe" "transfer",
        .onComplete "transfer" ⟨"done", some [.finish "other"], none, [], false⟩,
        .complete "transfer" (.failed .stall) 0]) :=
    .idle (idle_after 1 _)
  obtain ⟨result, w', hrun, rfl, horder⟩ :=
    (hreachable.ends_in_order "transfer" (b := ⟨0⟩) (by decide) 1 .finish).of_not_faults
      (by decide)
  exact ⟨_, w', hreachable, by decide, hrun, horder⟩

end Session

end UsbTransfer
