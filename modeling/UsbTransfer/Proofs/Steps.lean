import UsbTransfer.Ending
import UsbTransfer.Proofs.Belongings

/-!
# The steps of an end

A batch that ends has toggles reset and hands over its completion, if it finishes, then gives up
its endpoint, then loses its handler and its value.  Each of these steps is described here with
what user code may do in between, on both ways out.  From the moment on that a batch is given to
its end it is held, except while its bus is told that it goes away.
-/

namespace UsbTransfer

open Run

namespace Bus

variable {play : Player} {hands : Hands} {w : World}

/-- Whoever asks, a bus is asked once, and then its table and its code do their work. -/
theorem ensures_resetToggles (hplay : play.Fair) (hw : w.Ready hands) (bus : Key Bus)
    (asker : Option (Key Batch)) (target : Target) (scope : ResetScope) :
    Ensures (resetToggles play bus asker target scope) w fun r w' =>
      ∃ plan, w.state.KeepsLabel bus plan ∧
        Account hands Fault.Raised [] (fun _ => [])
          ((w.alter (·.setPlan bus plan)).note (.resetRequested bus asker target scope)) r w' := by
  unfold resetToggles
  simp only [ensures_bind, ensures_nextHook, ensures_record, then_ok]
  have hplan : w.state.KeepsLabel bus { (w.state.buses.get bus).plan with
      toggleReset := (w.state.buses.get bus).plan.toggleReset.advance } := ⟨rfl, rfl⟩
  have hasked := ((show Moves hands [] [] w _ from .consult hplan).ready hw).note
    (.resetRequested bus asker target scope)
  split
  · exact ⟨_, hplan, .refl _ _⟩
  · next hook hcurrent =>
      refine Ensures.mono (Q := Account hands Fault.Raised [] (fun _ => []) _) ?_
        fun r w' hr => ⟨_, hplan, hr⟩
      simp only [ensures_bind, ensures_getState, then_ok]
      split
      · refine (hplay.run_none hasked hook.code).bind fun _ w' _ => ?_
        cases hook.reply.reply <;> exact orderly_pure w' rfl
      · next table _ =>
          refine (Table.resetToggles_orderly hasked target scope).bind fun count w₁ hmoves => ?_
          have hreset : Moves hands [] [] w₁ (w₁.note (.tableResetByBus bus count)) :=
            .noteAside .unlocked trivial rfl fun _ => rfl
          have hready := (hmoves.ready hasked).note (.tableResetByBus bus count)
          unfold Orderly
          simp only [ensures_bind, ensures_record, then_ok]
          refine (ensures_bind _ _ _ _).mp (Orderly.after hreset ?_)
          refine (hplay.run_none hready hook.code).bind fun _ w' _ => ?_
          cases hook.reply.reply <;> exact orderly_pure w' rfl

end Bus

namespace Batch

variable {play : Player} {hands : Hands} {w w' : World} {b : Key Batch}

/-! ## Toggles -/

/-- A batch has toggles reset.  The bus of its endpoint is asked if and only if the transfer failed
and its scope is not empty, and what the bus does happens aside of the batch. -/
inductive Resets (hands : Hands) (b : Key Batch) (w : World) :
    Except Fault (Except UsbError Unit) → World → Prop where
  | spared (hspared : ¬ (w.state.transferOf b).NeedsReset) :
      Resets hands b w (.ok (.ok ())) w
  | released (hneeds : (w.state.transferOf b).NeedsReset)
      (he : (w.state.batches.get b).endpoint = none) :
      Resets hands b w (.error .batchReleased) (w.note (.togglesResetting b))
  | asked {e : Key Endpoint} {plan : BusPlan Script} {w₁ : World}
      {r : Except Fault (Except UsbError Unit)}
      (hneeds : (w.state.transferOf b).NeedsReset)
      (he : (w.state.batches.get b).endpoint = some e)
      (hplan : w.state.KeepsLabel (w.state.busOf e) plan)
      (hmoves : Moves (hands.hold b) [] []
        (((w.note (.togglesResetting b)).alter (·.setPlan (w.state.busOf e) plan)).note
          (.resetRequested (w.state.busOf e) (some b) (w.state.transferOf b).target
            (w.state.transferOf b).scope)) w₁)
      (hr : Allowed Fault.Raised r) :
      Resets hands b w r w₁

theorem ensures_resetToggles (hplay : play.Fair) (hw : w.Ready hands) (hloose : w.Loose b) :
    Ensures (resetToggles play b) w (Resets hands b w) := by
  unfold resetToggles
  simp only [ensures_bind, ensures_getState, then_ok]
  split
  · next hneeds =>
      simp only [ensures_bind, ensures_record, then_ok]
      split
      · next he => exact .released hneeds he
      · next e he =>
          simp only [ensures_bind]
          apply Ensures.mono (Bus.ensures_resetToggles hplay
            ((hw.hold hloose).note (.togglesResetting b)) (w.state.busOf e) (some b) _ _)
          intro r w₁ hr
          obtain ⟨plan, hplan, haccount⟩ := hr
          have hasked : ∀ r, Allowed Fault.Raised r → Resets hands b w r w₁ :=
            fun r hr => .asked hneeds he hplan haccount.moves hr
          cases r with
          | error fault => exact hasked _ haccount.allowed
          | ok answer =>
              cases answer with
              | none => exact hasked _ trivial
              | some outcome => exact hasked _ trivial
  · next hspared => exact .spared hspared

theorem Resets.moves {r : Except Fault (Except UsbError Unit)} (h : Resets hands b w r w')
    (hb : hands.MayTouch b) :
    Moves hands [] [] w w' := by
  have hresetting : Moves hands [] [] w (w.note (.togglesResetting b)) :=
    .noteOf (o := .togglesResetting b) trivial rfl hb (.inl rfl)
  cases h with
  | spared => exact .refl hands w
  | released => exact hresetting
  | @asked e plan _ _ hneeds he hplan hmoves =>
      have hconsult : Moves hands [] [] (w.note (.togglesResetting b)) _ := .consult hplan
      have hrequest : Moves hands [] []
          ((w.note (.togglesResetting b)).alter (·.setPlan (w.state.busOf e) plan))
          (((w.note (.togglesResetting b)).alter (·.setPlan (w.state.busOf e) plan)).note
            (.resetRequested (w.state.busOf e) (some b) (w.state.transferOf b).target
              (w.state.transferOf b).scope)) :=
        .noteOf (o := .resetRequested _ (some b) _ _) ⟨e, he, rfl, hneeds, rfl, rfl⟩ rfl hb
          (.inl rfl)
      exact ((hresetting.trans hconsult).trans hrequest).trans
        (hmoves.within (hands.within_hold b))

/-- The reset leaves the batch as it was. -/
theorem Resets.aside {r : Except Fault (Except UsbError Unit)} (h : Resets hands b w r w')
    (hloose : w.Loose b) :
    w'.state.batches.get b = w.state.batches.get b ∧ w'.Loose b := by
  cases h with
  | spared | released => exact ⟨rfl, hloose⟩
  | asked _ _ _ hmoves => exact hmoves.aside hloose

theorem Resets.allowed {r : Except Fault (Except UsbError Unit)} (h : Resets hands b w r w')
    (he : (w.state.batches.get b).endpoint.isSome) :
    Allowed Fault.Raised r := by
  cases h with
  | spared => trivial
  | released _ hnone => simp [hnone] at he
  | asked _ _ _ _ hr => exact hr

/-! ## The handler -/

/-- A batch that hands its completion over to its handler, with its buffer. -/
def handedOver (b : Key Batch) (handler : Handler) (w : World) : World :=
  (w.alter fun s => (s.detachHandler b).setTransfer b (s.transferOf b).withoutBuffer).note
    (.handlerInvoked b handler.serial handler.name? (w.state.transferOf b).completion)

theorem batch_handedOver {handler : Handler} (hloose : w.Loose b) :
    (handedOver b handler w).state.batches.get b =
      { w.state.batches.get b with
        handler := none, transfer := (w.state.transferOf b).withoutBuffer } := by
  have hdetached : (w.state.batches.modify b fun batch => { batch with handler := none }).get b =
      { w.state.batches.get b with handler := none } :=
    Arena.get_modify_self _ _ _ hloose.1
  simp only [handedOver, World.note_state, World.alter_state, State.setTransfer,
    State.detachHandler]
  rw [Arena.get_modify_self _ _ _ (by simpa using hloose.1), hdetached]

theorem loose_handedOver (handler : Handler) (hloose : w.Loose b) :
    (handedOver b handler w).Loose b :=
  (hloose.alter (by simp [State.setTransfer, State.detachHandler]) rfl).note _

/-- A batch hands its completion to its handler, if there is one, and the buffer with it.  The
handler works aside of the batch and is destroyed then. -/
inductive Delivers (hands : Hands) (b : Key Batch) (w : World) :
    Except Fault Unit → World → Prop where
  | nothing (hnone : (w.state.batches.get b).handler = none) :
      Delivers hands b w (.ok ()) w
  | handed {handler : Handler} {w₁ : World} {r : Except Fault Unit}
      (hhandler : (w.state.batches.get b).handler = some handler)
      (hmoves : Moves (hands.hold b) (Item.references handler.captured) []
        (handedOver b handler w) w₁)
      (hr : Allowed Fault.Raised r) :
      Delivers hands b w r (w₁.note (handler.destroyed b))
  | failed {handler : Handler} {w₁ : World} {error : UsbError}
      (hhandler : (w.state.batches.get b).handler = some handler)
      (hmoves : Moves (hands.hold b) (Item.references handler.captured) []
        (handedOver b handler w) w₁) :
      Delivers hands b w (.ok ())
        ((w₁.note (handler.destroyed b)).note (.handlerFailed b error))

theorem ensures_deliver (hplay : play.Fair) (hw : w.Ready hands) (hloose : w.Loose b)
    (hb : hands.MayEnd b) :
    Ensures (deliver play b) w (Delivers hands b w) := by
  unfold deliver
  simp only [ensures_bind, ensures_takeHandler?]
  cases hhandler : (w.state.batches.get b).handler with
  | none => exact .nothing hhandler
  | some handler =>
      have hover := Moves.handOver hw.sound hb hhandler
      simp only [then_ok, ensures_bind, ensures_getState, ensures_modifyTransfer]
      have htransfer : (w.alter (·.detachHandler b)).state.transferOf b = w.state.transferOf b :=
        State.transferOf_detachHandler b b
      rw [htransfer]
      have hready : World.Ready hands ((w.alter (·.detachHandler b)).alter
          (·.setTransfer b (w.state.transferOf b).withoutBuffer)) :=
        ⟨(hover.ready hw).sound, (hover.ready hw).loose⟩
      refine Ensures.mono (handler.ensures_invoke hplay hready (loose_handedOver handler hloose) _
        (fun e => ?_) (hw.sound.forwards b handler hhandler)) fun r w₂ hr => ?_
      · have hspare := hover.spare e
        simp only [List.count_nil, List.count_cons, Item.count_reference_references, beq_iff_eq,
          reduceCtorEq, if_false] at hspare
        exact Nat.le_trans (Nat.le_add_left _ _) (Nat.le_of_eq hspare.symm)
      · obtain ⟨w₁, hmoves, rfl, hallowed⟩ := hr
        cases r with
        | error fault => exact .handed (r := .error fault) hhandler hmoves hallowed
        | ok reply =>
            cases reply with
            | none => exact .handed (r := .ok ()) hhandler hmoves trivial
            | some error => exact .failed hhandler hmoves

/-- The handler that is invoked has its end. -/
theorem handed_moves {handler : Handler} {w₁ : World} (hw : w.state.Sound) (hb : hands.MayEnd b)
    (hhandler : (w.state.batches.get b).handler = some handler)
    (hmoves : Moves (hands.hold b) (Item.references handler.captured) []
      (handedOver b handler w) w₁) :
    Moves hands [] [] w (w₁.note (handler.destroyed b)) := by
  have hover := (Moves.handOver hw hb hhandler).trans (hmoves.within (hands.within_hold b))
  have hend : Moves hands [.handler b handler.serial] [] w₁ (w₁.note (handler.destroyed b)) :=
    Belonging.destroyed_moves (.handler handler) hb.mayTouch
  refine (hover.trans hend).settle fun i => ?_
  simp only [List.count_append, List.count_cons, List.count_nil]
  omega

theorem Delivers.moves {r : Except Fault Unit} (h : Delivers hands b w r w')
    (hw : w.state.Sound) (hb : hands.MayEnd b) :
    Moves hands [] [] w w' := by
  cases h with
  | nothing => exact .refl hands w
  | handed hhandler hmoves => exact handed_moves hw hb hhandler hmoves
  | @failed handler w₁ error hhandler hmoves =>
      exact (handed_moves hw hb hhandler hmoves).trans
        (.noteOf (o := .handlerFailed b error) trivial rfl hb.mayTouch (.inr hb))

/-- The handler works on what is left of its batch. -/
theorem handed_rest {handler : Handler} {w₁ : World} (hloose : w.Loose b)
    (hmoves : Moves (hands.hold b) (Item.references handler.captured) []
      (handedOver b handler w) w₁) :
    w₁.state.batches.get b =
        { w.state.batches.get b with
          handler := none, transfer := (w.state.transferOf b).withoutBuffer } ∧
      w₁.Loose b := by
  obtain ⟨hsame, hlater⟩ := hmoves.aside (loose_handedOver handler hloose)
  exact ⟨hsame.trans (batch_handedOver hloose), hlater⟩

/-- The delivery leaves the batch on its endpoint. -/
theorem Delivers.rest {r : Except Fault Unit} (h : Delivers hands b w r w')
    (hloose : w.Loose b) :
    (w'.state.batches.get b).endpoint = (w.state.batches.get b).endpoint ∧ w'.Loose b := by
  cases h with
  | nothing => exact ⟨rfl, hloose⟩
  | handed _ hmoves | failed _ hmoves =>
      obtain ⟨hsame, hlater⟩ := handed_rest hloose hmoves
      have hendpoint := congrArg Batch.endpoint hsame
      exact ⟨hendpoint, hlater⟩

theorem Delivers.allowed {r : Except Fault Unit} (h : Delivers hands b w r w') :
    Allowed Fault.Raised r := by
  cases h with
  | nothing | failed => trivial
  | handed _ _ hr => exact hr

/-! ## The endpoint -/

/-- A batch that gives up its endpoint. -/
def givenUp (b : Key Batch) (e : Key Endpoint) (w : World) : World :=
  (w.alter (·.detachEndpoint b)).note (.endpointGivenUp b e)

/-- A batch is released.  Its reference on its endpoint goes away, and if that was the last one,
the bus is told of it, aside of the batch.  Only when that went well the bus is told of the batch,
which user code may use then. -/
inductive Releases (play : Player) (hands : Hands) (b : Key Batch) (w : World) :
    Except Fault Unit → World → Prop where
  | before (he : (w.state.batches.get b).endpoint = none) :
      Releases play hands b w (.ok ()) w
  | interrupted {e : Key Endpoint} {w₁ w₂ : World} {fault : Fault}
      (he : (w.state.batches.get b).endpoint = some e)
      (hfaults : (Endpoint.release play e).Faults (givenUp b e w))
      (hlast : (w.state.endpoints.get e).references = 1)
      (hloses : (givenUp b e w).Loses e w₁) (hmoves : Moves (hands.hold b) [] [] w₁ w₂)
      (hfault : fault.Raised) :
      Releases play hands b w (.error fault) w₂
  | refused {e : Key Endpoint} {plan : BusPlan Script} {w₁ w₂ w₃ : World} {fault : Fault}
      (he : (w.state.batches.get b).endpoint = some e)
      (hreturns : ¬ (Endpoint.release play e).Faults (givenUp b e w))
      (hloses : (givenUp b e w).Loses e w₁) (hmoves : Moves (hands.hold b) [] [] w₁ w₂)
      (hshared : 1 < (w.state.endpoints.get e).references → w₂ = w₁)
      (hplan : w₂.state.KeepsLabel (w.state.busOf e) plan)
      (htold : Moves (hands.lend b) [] []
        ((w₂.alter (·.setPlan (w.state.busOf e) plan)).note
          (.batchFarewell (w.state.busOf e) b)) w₃)
      (hfault : fault.Raised)
      (hcode : ∃ code, w₃ = (play.run (some b) code).worldAfter
        ((w₂.alter (·.setPlan (w.state.busOf e) plan)).note
          (.batchFarewell (w.state.busOf e) b))) :
      Releases play hands b w (.error fault) w₃
  | done {e : Key Endpoint} {plan : BusPlan Script} {reply : FarewellReply} {w₁ w₂ w₃ : World}
      (he : (w.state.batches.get b).endpoint = some e)
      (hreturns : ¬ (Endpoint.release play e).Faults (givenUp b e w))
      (hloses : (givenUp b e w).Loses e w₁) (hmoves : Moves (hands.hold b) [] [] w₁ w₂)
      (hshared : 1 < (w.state.endpoints.get e).references → w₂ = w₁)
      (hplan : w₂.state.KeepsLabel (w.state.busOf e) plan)
      (htold : Moves (hands.lend b) [] []
        ((w₂.alter (·.setPlan (w.state.busOf e) plan)).note
          (.batchFarewell (w.state.busOf e) b)) w₃)
      (hcode : ∃ code, w₃ = (play.run (some b) code).worldAfter
        ((w₂.alter (·.setPlan (w.state.busOf e) plan)).note
          (.batchFarewell (w.state.busOf e) b))) :
      Releases play hands b w (.ok ()) (w₃.note (.batchReleased b reply))

theorem batch_givenUp {e : Key Endpoint} (hloose : w.Loose b) :
    (givenUp b e w).state.batches.get b = { w.state.batches.get b with endpoint := none } :=
  Arena.get_modify_self _ _ _ hloose.1

theorem loose_givenUp {e : Key Endpoint} (hloose : w.Loose b) :
    (givenUp b e w).Loose b :=
  (hloose.alter (by simp [State.detachEndpoint]) rfl).note _

theorem givenUp_moves {e : Key Endpoint} (hw : w.state.Sound) (hb : hands.MayEnd b)
    (hloose : w.Loose b) (he : (w.state.batches.get b).endpoint = some e) :
    Moves hands [] [.reference e] w (givenUp b e w) :=
  .giveUpEndpoint hw hb hloose.2 he

/-- The reference that a batch gives up is spare, and leaves the count of its endpoint as it
was. -/
theorem spare_givenUp {e : Key Endpoint} (hw : w.state.Sound) (hb : hands.MayEnd b)
    (hloose : w.Loose b) (he : (w.state.batches.get b).endpoint = some e) :
    0 < (givenUp b e w).state.spare e :=
  (givenUp_moves hw hb hloose he).spare_pos

theorem ensures_release (hplay : play.Fair) (hw : w.Ready hands) (hloose : w.Loose b)
    (hb : hands.MayEnd b) :
    Ensures (release play b) w (Releases play hands b w) := by
  unfold release
  simp only [ensures_bind, ensures_getState, then_ok]
  split
  · next he => exact .before he
  · next e he =>
      have hgiven := givenUp_moves hw.sound hb hloose he
      have hspare := spare_givenUp hw.sound hb hloose he
      have hloose' := loose_givenUp (e := e) hloose
      have hready := (hgiven.ready hw).hold hloose'
      simp only [ensures_bind, ensures_modifyState, then_ok, ensures_record]
      apply Ensures.mono ((Endpoint.ensures_release hplay hready hspare).and
        (ensures_faults _ _))
      intro r w₂ hr
      obtain ⟨⟨w₁, hloses, haccount, hshared⟩, hfaults⟩ := hr
      have hready' := ((hloses.moves hspare).trans haccount.moves).ready hready
      have hloose₂ : w₂.Loose b := by
        have hheld : ¬ (hands.hold b).MayEnd b := by simp
        exact hready'.loose b hheld
      cases r with
      | error fault =>
          refine .interrupted he (hfaults.mp ⟨fault, rfl⟩) ?_ hloses haccount.moves
            haccount.allowed
          by_contra hlast
          have hpositive : 0 < ((givenUp b e w).state.endpoints.get e).references :=
            hready.sound.counted.references_pos (State.handlesOn_pos_of_spare hspare)
          have hmany : 1 < ((givenUp b e w).state.endpoints.get e).references :=
            Nat.lt_of_le_of_ne hpositive fun h => hlast h.symm
          exact absurd (hshared hmany).1 (by simp)
      | ok _ =>
          have hreturns : ¬ (Endpoint.release play e).Faults (givenUp b e w) :=
            fun h => absurd (hfaults.mpr h) (by simp)
          have hsame : 1 < (w.state.endpoints.get e).references → w₂ = w₁ :=
            fun h => (hshared h).2
          simp only [then_ok, ensures_bind]
          unfold Bus.batchFarewell
          simp only [ensures_bind, Bus.ensures_nextHook, then_ok, ensures_record]
          obtain ⟨plan, hplan⟩ : ∃ plan, plan =
              { (w₂.state.buses.get (w.state.busOf e)).plan with
                batchDestroy :=
                  (w₂.state.buses.get (w.state.busOf e)).plan.batchDestroy.advance } := ⟨_, rfl⟩
          have hkeeps : w₂.state.KeepsLabel (w.state.busOf e) plan := by
            rw [hplan]
            exact ⟨rfl, rfl⟩
          have hconsult : Moves (hands.hold b) [] [] w₂ _ := .consult hkeeps
          have htold := ((hconsult.ready hready').within (hands.within_hold b)).note
            (.batchFarewell (w.state.busOf e) b)
          rw [← hplan]
          split
          · exact .done he hreturns hloses haccount.moves hsame hkeeps (.refl _ _) ⟨none, rfl⟩
          · next hook _ =>
              simp only [ensures_bind]
              apply Ensures.mono ((hplay.run_some htold hb.mayTouch
                (hloose₂.alter rfl rfl |>.note _) hook.code).and (ensures_worldAfter _ _))
              rintro r w₃ ⟨hr, hw₃⟩
              cases r with
              | error fault =>
                  exact .refused he hreturns hloses haccount.moves hsame hkeeps hr.moves
                    hr.allowed ⟨hook.code, hw₃⟩
              | ok _ =>
                  exact .done he hreturns hloses haccount.moves hsame hkeeps hr ⟨hook.code, hw₃⟩

/-- While user code has a released batch at hand, the batch stays without an endpoint. -/
theorem told_rest {w₂ w₃ : World} {bus : Key Bus} {plan : BusPlan Script}
    (hloose : w₂.Loose b) (he : (w₂.state.batches.get b).endpoint = none)
    (htold : Moves (hands.lend b) [] []
      ((w₂.alter (·.setPlan bus plan)).note (.batchFarewell bus b)) w₃) :
    (w₃.state.batches.get b).endpoint = none ∧ w₃.Loose b := by
  have hlent : ¬ (hands.lend b).MayEnd b := by simp
  exact ⟨(htold.changes.endpoint_eq hlent hloose).trans he, htold.changes.loose hlent hloose⟩

/-- The batch lost its endpoint, and nothing else. -/
theorem lost_rest {e : Key Endpoint} {w₁ w₂ : World} (hloose : w.Loose b)
    (hloses : (givenUp b e w).Loses e w₁) (hmoves : Moves (hands.hold b) [] [] w₁ w₂) :
    w₂.state.batches.get b = { w.state.batches.get b with endpoint := none } ∧ w₂.Loose b := by
  have hkept : w₁.state.batches = (givenUp b e w).state.batches ∧ w₁.Loose b := by
    cases hloses with
    | shared => exact ⟨rfl, loose_givenUp (e := e) hloose⟩
    | last => exact ⟨rfl, loose_givenUp (e := e) hloose⟩
  obtain ⟨hsame, hlater⟩ := hmoves.aside hkept.2
  rw [hsame, hkept.1]
  exact ⟨batch_givenUp hloose, hlater⟩

theorem Releases.rest {r : Except Fault Unit} (h : Releases play hands b w r w')
    (hloose : w.Loose b) :
    (w'.state.batches.get b).endpoint = none ∧ w'.Loose b := by
  cases h with
  | before he => exact ⟨he, hloose⟩
  | interrupted he _ _ hloses hmoves =>
      obtain ⟨hsame, hlater⟩ := lost_rest hloose hloses hmoves
      exact ⟨congrArg Batch.endpoint hsame, hlater⟩
  | refused he _ hloses hmoves _ hplan htold | done he _ hloses hmoves _ hplan htold =>
      obtain ⟨hsame, hlater⟩ := lost_rest hloose hloses hmoves
      have hrest := told_rest hlater (congrArg Batch.endpoint hsame) htold
      exact hrest

/-- The reference that a batch gave up goes away, and nothing is left of it. -/
theorem lost_moves {e : Key Endpoint} {w₁ w₂ : World} (hw : w.state.Sound) (hb : hands.MayEnd b)
    (hloose : w.Loose b) (he : (w.state.batches.get b).endpoint = some e)
    (hloses : (givenUp b e w).Loses e w₁) (hmoves : Moves (hands.hold b) [] [] w₁ w₂) :
    Moves hands [] [] w w₂ := by
  have hgiven := givenUp_moves hw hb hloose he
  have hreleased : Moves hands [.reference e] [] (givenUp b e w) w₁ :=
    hloses.moves (spare_givenUp hw hb hloose he)
  exact (hgiven.cancel hreleased).trans (hmoves.within (hands.within_hold b))

theorem Releases.moves {r : Except Fault Unit} (h : Releases play hands b w r w')
    (hw : w.state.Sound) (hloose : w.Loose b) (hb : hands.MayEnd b) :
    Moves hands [] [] w w' := by
  have htold : ∀ {e : Key Endpoint} {plan : BusPlan Script} {w₁ w₂ w₃ : World},
      (w.state.batches.get b).endpoint = some e → (givenUp b e w).Loses e w₁ →
        Moves (hands.hold b) [] [] w₁ w₂ → w₂.state.KeepsLabel (w.state.busOf e) plan →
          Moves (hands.lend b) [] []
            ((w₂.alter (·.setPlan (w.state.busOf e) plan)).note
              (.batchFarewell (w.state.busOf e) b)) w₃ →
            Moves hands [] [] w w₃ := by
    intro e plan w₁ w₂ w₃ he hloses hmoves hplan htold
    have hnone : (w₂.state.batches.get b).endpoint = none :=
      congrArg Batch.endpoint (lost_rest hloose hloses hmoves).1
    have hconsult : Moves hands [] [] w₂ _ := .consult hplan
    have hfarewell : Moves hands [] [] (w₂.alter (·.setPlan (w.state.busOf e) plan)) _ :=
      .noteOf (o := .batchFarewell (w.state.busOf e) b) hnone rfl hb.mayTouch (.inr hb)
    have hlost := lost_moves hw hb hloose he hloses hmoves
    exact ((hlost.trans hconsult).trans hfarewell).trans (htold.within (hands.within_lend b))
  cases h with
  | before => exact .refl hands w
  | interrupted he _ _ hloses hmoves => exact lost_moves hw hb hloose he hloses hmoves
  | refused he _ hloses hmoves _ hplan hfarewell => exact htold he hloses hmoves hplan hfarewell
  | @done e plan reply w₁ w₂ w₃ he _ hloses hmoves _ hplan hfarewell =>
      exact (htold he hloses hmoves hplan hfarewell).trans
        (.noteOf (o := .batchReleased b reply) trivial rfl hb.mayTouch (.inr hb))

theorem Releases.allowed {r : Except Fault Unit} (h : Releases play hands b w r w') :
    Allowed Fault.Raised r := by
  cases h with
  | before | done => trivial
  | interrupted _ _ _ _ _ hfault | refused _ _ _ _ _ _ _ hfault _ => exact hfault

/-! ## What is left -/

/-- A batch loses one of its belongings, if it has it, and that is destroyed aside of the batch: its
references go away first. -/
inductive Sheds (hands : Hands) (b : Key Batch) (w : World) :
    Option Belonging → Except Fault Unit → World → Prop where
  | nothing : Sheds hands b w none (.ok ()) w
  | shed {x : Belonging} {w₁ : World} {r : Except Fault Unit} (hx : x.OwnedBy b w.state)
      (hmoves : Moves (hands.hold b) (Item.references x.captured) [] (w.alter (x.detach b)) w₁)
      (hr : Allowed Fault.Raised r)
      (hloses : (w.alter (x.detach b)).LosesAll (hands.hold b) x.captured w₁) :
      Sheds hands b w (some x) r (w₁.note (x.destroyed b))

/-- The handler that a batch has. -/
def handlerOf (b : Key Batch) (w : World) : Option Belonging :=
  (w.state.batches.get b).handler.map .handler

/-- The value that a batch has. -/
def dataOf (b : Key Batch) (w : World) : Option Belonging :=
  (w.state.batches.get b).data.map .data

theorem Sheds.moves {x? : Option Belonging} {r : Except Fault Unit}
    (h : Sheds hands b w x? r w') (hw : w.state.Sound) (hb : hands.MayTouch b) :
    Moves hands [] [] w w' := by
  cases h with
  | nothing => exact .refl hands w
  | @shed x _ _ hx hmoves =>
      have hdetach := x.detach_moves hx hw hb
      refine ((hdetach.trans (hmoves.within (hands.within_hold b))).trans
        (x.destroyed_moves hb)).settle fun i => ?_
      simp only [List.count_append, List.count_cons, List.count_nil]
      omega

theorem Sheds.allowed {x? : Option Belonging} {r : Except Fault Unit}
    (h : Sheds hands b w x? r w') :
    Allowed Fault.Raised r := by
  cases h with
  | nothing => trivial
  | shed _ _ hr _ => exact hr

/-- The batch loses that belonging alone. -/
theorem Sheds.rest {x? : Option Belonging} {r : Except Fault Unit}
    (h : Sheds hands b w x? r w') (hloose : w.Loose b) :
    w'.state.batches.get b = x?.elim (w.state.batches.get b) (·.without (w.state.batches.get b)) ∧
      w'.Loose b := by
  cases h with
  | nothing => exact ⟨rfl, hloose⟩
  | @shed x _ _ _ hmoves =>
      obtain ⟨hsame, hlater⟩ := hmoves.aside (x.loose_detach hloose)
      exact ⟨hsame.trans (x.get_detach hloose), hlater⟩

theorem Sheds.rest_handler {r : Except Fault Unit} (h : Sheds hands b w (handlerOf b w) r w')
    (hloose : w.Loose b) :
    w'.state.batches.get b = { w.state.batches.get b with handler := none } ∧ w'.Loose b := by
  obtain ⟨hsame, hlater⟩ := h.rest hloose
  refine ⟨hsame.trans ?_, hlater⟩
  unfold handlerOf
  cases hhandler : (w.state.batches.get b).handler with
  | none => exact congrArg (fun handler => { w.state.batches.get b with handler }) hhandler
  | some handler => rfl

theorem Sheds.rest_data {r : Except Fault Unit} (h : Sheds hands b w (dataOf b w) r w')
    (hloose : w.Loose b) :
    w'.state.batches.get b = { w.state.batches.get b with data := none } ∧ w'.Loose b := by
  obtain ⟨hsame, hlater⟩ := h.rest hloose
  refine ⟨hsame.trans ?_, hlater⟩
  unfold dataOf
  cases hdata : (w.state.batches.get b).data with
  | none => exact congrArg (fun data => { w.state.batches.get b with data }) hdata
  | some a => rfl

/-- What left its batch is destroyed. -/
theorem ensures_shed {x : Belonging} (hplay : play.Fair) (hw : w.Ready hands)
    (hloose : w.Loose b) (hb : hands.MayTouch b) (hx : x.OwnedBy b w.state) :
    Ensures (x.destroy play b) (w.alter (x.detach b)) (Sheds hands b w (some x)) := by
  have hready := (x.detach_moves hx hw.sound hb).ready hw
  have hspare : ∀ e, x.captured.count e ≤ (w.alter (x.detach b)).state.spare e := by
    intro e
    rw [x.spare_detach hx hw.sound hb e]
    exact Nat.le_add_left _ _
  apply Ensures.mono (x.ensures_destroy_losing hplay hready (x.loose_detach hloose) hspare)
  rintro r w₂ ⟨w₁, hloses, rfl, hallowed⟩
  exact .shed hx (hloses.moves hspare) hallowed hloses

theorem ensures_destroyBelongings (hplay : play.Fair) (hw : w.Ready hands) (hloose : w.Loose b)
    (hb : hands.MayTouch b) :
    Ensures (destroyBelongings play b) w fun r w' =>
      ∃ r₁ w₁ r₂, Sheds hands b w (handlerOf b w) r₁ w₁ ∧ Sheds hands b w₁ (dataOf b w₁) r₂ w' ∧
        r = settled r₁ r₂ := by
  unfold destroyBelongings
  rw [ensures_ensuring]
  refine Ensures.mono (Q := Sheds hands b w (handlerOf b w)) ?_ fun r₁ w₁ hr₁ => ?_
  · simp only [ensures_bind, ensures_takeHandler?]
    unfold handlerOf
    cases hhandler : (w.state.batches.get b).handler with
    | none => exact .nothing
    | some handler => exact ensures_shed (x := .handler handler) hplay hw hloose hb hhandler
  · have hw₁ := (hr₁.moves hw.sound hb).ready hw
    have hloose₁ := (hr₁.rest hloose).2
    refine Ensures.mono (Q := Sheds hands b w₁ (dataOf b w₁)) ?_ fun r₂ w₂ hr₂ =>
      ⟨r₁, w₁, r₂, hr₁, hr₂, rfl⟩
    simp only [ensures_bind, ensures_takeData?]
    unfold dataOf
    cases hdata : (w₁.state.batches.get b).data with
    | none => exact .nothing
    | some a => exact ensures_shed (x := .data a) hplay hw₁ hloose₁ hb hdata

end Batch

end UsbTransfer
