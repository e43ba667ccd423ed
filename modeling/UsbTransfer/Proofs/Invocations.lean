import UsbTransfer.Proofs.Lifetimes

/-!
# Invocations

The end of a batch invokes its handler once if the batch finishes and its bus does not give up
before, and not at all otherwise.
-/

namespace UsbTransfer

/-- What the handler of the batch is invoked with, by number, name and completion. -/
def Occurrence.invocationOf? (b : Key Batch) :
    Occurrence → Option (Nat × Option String × Completion)
  | .handlerInvoked b' n name? c => if b' = b then some (n, name?, c) else none
  | _ => none

theorem Occurrence.invocationOf?_eq_some {b : Key Batch} {o : Occurrence} {n : Nat}
    {name? : Option String} {c : Completion} (h : o.invocationOf? b = some (n, name?, c)) :
    o = .handlerInvoked b n name? c := by
  cases o <;> simp_all [invocationOf?]

theorem Occurrence.not_invocation_of_unstepped {b : Key Batch} {o : Occurrence}
    (h : ¬ o.StepOf b) :
    o.invocationOf? b = none := by
  cases o <;> simp_all [invocationOf?, StepOf, endOf?]

theorem Occurrence.not_invocation_of_aside {b : Key Batch} {o : Occurrence}
    (h : o.batch? ≠ some b) :
    o.invocationOf? b = none := by
  cases o <;> simp_all [invocationOf?, batch?]

namespace Batch

variable {play : Player} {hands : Hands} {w w' : World} {b : Key Batch}

/-- The invocations among what happened. -/
def invocations (b : Key Batch) (all : List Occurrence) : List (Nat × Option String × Completion) :=
  all.filterMap (Occurrence.invocationOf? b)

@[simp]
theorem invocations_nil (b : Key Batch) : invocations b [] = [] :=
  rfl

@[simp]
theorem invocations_cons (b : Key Batch) (o : Occurrence) (all : List Occurrence) :
    invocations b (o :: all) = (o.invocationOf? b).toList ++ invocations b all := by
  cases h : o.invocationOf? b <;> simp [invocations, h]

@[simp]
theorem invocations_append (b : Key Batch) (all all' : List Occurrence) :
    invocations b (all ++ all') = invocations b all ++ invocations b all' :=
  List.filterMap_append

theorem invocations_aside {nested : List Occurrence} (h : AsideOf b nested) :
    invocations b nested = [] :=
  List.filterMap_eq_nil_iff.mpr fun o ho => Occurrence.not_invocation_of_aside (h o ho)

theorem invocations_opening {ending : Ending} {bus : Key Bus} {t : Transfer} {met : Encounter}
    (haside : AsideOf b (met.inReset ++ met.inHandler))
    (hinvokes : ending.Invokes play b w met.invoked) :
    invocations b (ending.opening b bus t met) =
      (met.invoked.map fun handler =>
        (handler.serial, handler.name?, (ending.final t).completion)).toList := by
  have hreset : invocations b met.inReset = [] :=
    invocations_aside fun o ho => haside o (List.mem_append_left _ ho)
  have hhandler : invocations b met.inHandler = [] :=
    invocations_aside fun o ho => haside o (List.mem_append_right _ ho)
  have hresetting : ∀ t, invocations b (resetting b bus t met.inReset met.failure) = [] := by
    intro t
    unfold resetting
    split
    · cases met.failure <;> simp [hreset, Occurrence.invocationOf?]
    · rfl
  have hdelivering : ∀ t, invocations b (delivering b t met.inHandler met.complaint met.invoked) =
        (met.invoked.map fun handler => (handler.serial, handler.name?, t.completion)).toList := by
    intro t
    cases met.invoked with
    | none => rfl
    | some handler =>
        cases met.complaint <;>
          simp [delivering, Occurrence.invocationOf?, Handler.destroyed, hhandler]
  unfold Ending.opening
  split
  · simp [completing, hresetting, hdelivering, Occurrence.invocationOf?]
  · next hfinishes =>
      rw [hinvokes.2 fun hinterrupted => hfinishes hinterrupted.1, if_neg hfinishes]
      rfl

/-- After the opening no handler of the batch is invoked. -/
theorem Releases.uninvoked {r : Except Fault Unit} {e : Key Endpoint}
    (h : Releases play hands b w r w') (hloose : w.Loose b)
    (he : (w.state.batches.get b).endpoint = some e) :
    ∃ rest, w.Trace rest w' ∧ invocations b rest = [] := by
  obtain ⟨w₁, nested, farewell, -, hnested, htrace, -, hskipped, htold⟩ := h.trace hloose he
  refine ⟨_, ((World.Trace.alter w (·.detachEndpoint b)).around htrace), ?_⟩
  have hfarewell : invocations b farewell = [] := by
    by_cases hfaults : (Endpoint.release play e).Faults (givenUp b e w)
    · rw [(hskipped hfaults).1]
      rfl
    · obtain ⟨meanwhile, reply, -, -, hsteps, rfl, -⟩ := htold hfaults
      have hmeanwhile : invocations b meanwhile = [] :=
        List.filterMap_eq_nil_iff.mpr fun o ho =>
          Occurrence.not_invocation_of_unstepped (hsteps o ho)
      cases reply <;> simp [hmeanwhile, Occurrence.invocationOf?]
  simp [hfarewell, invocations_aside hnested, Occurrence.invocationOf?]

theorem Sheds.uninvoked {x? : Option Belonging} {r : Except Fault Unit}
    (h : Sheds hands b w x? r w') (hloose : w.Loose b) :
    ∃ rest, w.Trace rest w' ∧ invocations b rest = [] := by
  obtain ⟨nested, hnested, htrace⟩ := h.trace hloose
  refine ⟨_, htrace, ?_⟩
  cases x? with
  | none => rfl
  | some x =>
      have hlast : (x.destroyed b).invocationOf? b = none := by
        cases x with
        | handler | data => rfl
      simp [shedding, invocations_aside hnested, hlast]

/-- The handler is invoked once, with the completion of the data with which the batch ends, or not
at all. -/
theorem Course.invocations {ending : Ending} {r : Except Fault Unit}
    (h : Course play hands b (ending.Begins play hands b w) r w') (hw : w.state.Sound)
    (hb : hands.MayEnd b) (hloose : w.Loose b)
    (hlive : (w.state.batches.get b).endpoint.isSome) :
    ∃ all invoked, w.Trace all w' ∧ ending.Invokes play b w invoked ∧
      Batch.invocations b all = (invoked.map fun handler => (handler.serial, handler.name?,
        (ending.final (w.state.transferOf b)).completion)).toList := by
  obtain ⟨e, he⟩ := Option.isSome_iff_exists.mp hlive
  obtain @⟨r₁, r₂, r₃, r₄, w₁, w₃, w₄, w₅, hbegin, hrelease, hhandler, hdata⟩ := h
  obtain ⟨-, hendpoint, hloose₁⟩ := hbegin.moves hw hb hloose
  obtain ⟨met, haside, hopening, hinvokes, -⟩ := hbegin.trace hloose he
  obtain ⟨released, hreleased, hrest⟩ := hrelease.uninvoked hloose₁ (hendpoint.trans he)
  have hloose₃ := (hrelease.rest hloose₁).2
  obtain ⟨shed, hshed, hrest'⟩ := hhandler.uninvoked hloose₃
  obtain ⟨shed', hshed', hrest''⟩ := hdata.uninvoked (hhandler.rest_handler hloose₃).2
  refine ⟨_, met.invoked, (((hopening.trans hreleased).trans hshed).trans hshed').note
    (.batchEnded b), hinvokes, ?_⟩
  simp [invocations_opening haside hinvokes, hrest, hrest', hrest'', Occurrence.invocationOf?]

end Batch
end UsbTransfer
