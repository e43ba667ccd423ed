import UsbTransfer.Proofs.Frames
import Mathlib.Data.List.Count

/-!
# Balances

Besides batches, an operation in progress can be left with references on endpoints, with handlers
that left their batch and are not destroyed yet, and with attached values likewise.  Of each such
item so many are afloat, which can be read off a world.  `Moves` says of a sequence of changes what
it was given and what it took, so that nothing is lost or done twice.

A value that user code takes out of its batch is its own, and no longer accounted for.
-/

namespace UsbTransfer

/-- What an operation in progress can be left with. -/
inductive Item where
  | reference (e : Key Endpoint)
  | handler (b : Key Batch) (serial : Nat)
  | data (b : Key Batch) (serial : Nat)
deriving DecidableEq

namespace Item

/-- References on endpoints, as items. -/
def references (es : List (Key Endpoint)) : List Item :=
  es.map .reference

@[simp]
theorem references_nil : references [] = [] :=
  rfl

@[simp]
theorem references_cons (e : Key Endpoint) (es : List (Key Endpoint)) :
    references (e :: es) = .reference e :: references es :=
  rfl

@[simp]
theorem references_append (es es' : List (Key Endpoint)) :
    references (es ++ es') = references es ++ references es' :=
  List.map_append

@[simp]
theorem count_reference_references (es : List (Key Endpoint)) (e : Key Endpoint) :
    (references es).count (.reference e) = es.count e :=
  List.count_map_of_injective es Item.reference (fun _ _ h => Item.reference.inj h) e

@[simp]
theorem count_handler_references (es : List (Key Endpoint)) (b : Key Batch) (n : Nat) :
    (references es).count (.handler b n) = 0 :=
  List.count_eq_zero.mpr (by simp [references])

@[simp]
theorem count_data_references (es : List (Key Endpoint)) (b : Key Batch) (n : Nat) :
    (references es).count (.data b n) = 0 :=
  List.count_eq_zero.mpr (by simp [references])

end Item

namespace Occurrence

/-- The item that comes into being with an occurrence. -/
def begun? : Occurrence → Option Item
  | .handlerAttached b n => some (.handler b n)
  | .dataAttached b n => some (.data b n)
  | _ => none

/-- The item that nobody has to care for any more after an occurrence. -/
def closed? : Occurrence → Option Item
  | .handlerDestroyed b n _ => some (.handler b n)
  | .dataDestroyed b n _ => some (.data b n)
  | .dataTaken b n => some (.data b n)
  | _ => none

/-- No other item comes into being. -/
theorem begun?_eq_none_of_fits {s : State} {o : Occurrence} (h : o.Fits s) :
    o.begun? = none := by
  cases o <;> first | rfl | exact h.elim

end Occurrence

/-- The handler and the value of a batch, as items. -/
def Batch.items (b : Key Batch) (batch : Batch) : List Item :=
  (batch.handler.map fun handler => .handler b handler.serial).toList ++
    (batch.data.map fun a => .data b a.serial).toList

namespace State

/-- How many references on an endpoint are spare. -/
def spareOf (s : State) : Item → Nat
  | .reference e => s.spare e
  | .handler _ _ | .data _ _ => 0

/-- How many of an item are in their batch. -/
def attached (s : State) (i : Item) : Nat :=
  match i with
  | .reference _ => 0
  | .handler b _ | .data b _ => ((s.batches.get b).items b).count i

theorem attached_of_items_eq {s s' : State}
    (h : ∀ b, (s'.batches.get b).items b = (s.batches.get b).items b) (i : Item) :
    s'.attached i = s.attached i := by
  cases i with
  | reference e => rfl
  | handler b n | data b n => simp only [attached, h b]

/-- Changing a batch changes what is attached by what the batch has before and after. -/
theorem attached_modify {s s' : State} {b : Key Batch} {f : Batch → Batch}
    (hb : b.index < s.batches.size) (h : s'.batches = s.batches.modify b f) (i : Item) :
    s'.attached i + ((s.batches.get b).items b).count i =
      s.attached i + ((f (s.batches.get b)).items b).count i := by
  have hother : ∀ (batch : Batch) (b' : Key Batch) n, b' ≠ b →
      (batch.items b).count (.handler b' n) = 0 ∧ (batch.items b).count (.data b' n) = 0 := by
    intro batch b' n hne
    simp only [List.count_eq_zero, Batch.items, List.mem_append, Option.mem_toList,
      Option.map_eq_some_iff]
    constructor <;> rintro (⟨_, -, h⟩ | ⟨_, -, h⟩) <;> simp_all
  cases i with
  | reference e =>
      have hnone : ∀ batch : Batch, (batch.items b).count (.reference e) = 0 := by
        intro batch
        simp [List.count_eq_zero, Batch.items]
      simp only [attached, hnone]
  | handler b' n | data b' n =>
      simp only [attached, h]
      by_cases heq : b' = b
      · subst heq
        rw [Arena.get_modify_self _ _ _ hb]
        exact Nat.add_comm _ _
      · rw [Arena.get_modify_of_ne _ _ heq]
        simp only [hother _ b' n heq]

end State

namespace World

/-- How often an item came into being. -/
def begun (w : World) (i : Item) : Nat :=
  w.tally fun o => o.begun? = some i

/-- How often an item was settled for good. -/
def closed (w : World) (i : Item) : Nat :=
  w.tally fun o => o.closed? = some i

/-- How many of an item operations in progress are left with: the spare references, and what came
into being, is not attached and was not settled. -/
def afloat (w : World) (i : Item) : Int :=
  w.state.spareOf i + w.begun i - w.state.attached i - w.closed i

/-- User code took a value out of its batch. -/
def TakenOut (w : World) : Item → Prop
  | .data b n => ∃ m ∈ w.history, m.occurrence = .dataTaken b n
  | _ => False

@[simp]
theorem begun_alter (w : World) (f : State → State) (i : Item) :
    (w.alter f).begun i = w.begun i :=
  rfl

@[simp]
theorem closed_alter (w : World) (f : State → State) (i : Item) :
    (w.alter f).closed i = w.closed i :=
  rfl

@[simp]
theorem begun_noteUnder (w : World) (v : View) (o : Occurrence) (i : Item) :
    (w.noteUnder v o).begun i = w.begun i + o.begun?.toList.count i := by
  rw [begun, tally_noteUnder, begun]
  cases h : o.begun? <;> simp [List.count_singleton]

@[simp]
theorem closed_noteUnder (w : World) (v : View) (o : Occurrence) (i : Item) :
    (w.noteUnder v o).closed i = w.closed i + o.closed?.toList.count i := by
  rw [closed, tally_noteUnder, closed]
  cases h : o.closed? <;> simp [List.count_singleton]

@[simp]
theorem begun_note (w : World) (o : Occurrence) (i : Item) :
    (w.note o).begun i = w.begun i + o.begun?.toList.count i :=
  begun_noteUnder w .unlocked o i

@[simp]
theorem closed_note (w : World) (o : Occurrence) (i : Item) :
    (w.note o).closed i = w.closed i + o.closed?.toList.count i :=
  closed_noteUnder w .unlocked o i

/-- What was taken out stays so. -/
theorem TakenOut.of_adds {P : Occurrence → Prop} {w w' : World} {i : Item}
    (h : w.TakenOut i) (hadds : Adds P w w') :
    w'.TakenOut i := by
  obtain ⟨since, hsince, -⟩ := hadds
  cases i with
  | reference | handler => exact h
  | data b n =>
      obtain ⟨m, hm, ho⟩ := h
      exact ⟨m, hsince ▸ List.mem_append_right since hm, ho⟩

end World

/-- Changes that use up what is given and leave afloat what they take. -/
structure Moves (hands : Hands) (give take : List Item) (w w' : World) : Prop where
  changes : Changes hands w w'
  loans : w'.state.directory.loans = w.state.directory.loans
  balance : ∀ i, ¬ w'.TakenOut i → w'.afloat i + give.count i = w.afloat i + take.count i

/-- Nothing that was recorded is ever forgotten. -/
theorem Changes.adds {hands : Hands} {w w' : World} (h : Changes hands w w') :
    World.Adds (fun _ => True) w w' := by
  induction h with
  | refl => exact .refl _ _
  | tail _ hchange ih => exact ih.trans (hchange.adds.mono fun _ _ => trivial)

namespace Moves

variable {hands : Hands} {give take give' take' : List Item} {w w' w'' : World}

theorem suffix (h : Moves hands give take w w') : w.history <:+ w'.history := by
  obtain ⟨since, hsince, -⟩ := h.changes.adds
  exact ⟨since, hsince.symm⟩

theorem refl (hands : Hands) (w : World) : Moves hands [] [] w w where
  changes := .refl
  loans := rfl
  balance := fun _ _ => rfl

theorem trans (h : Moves hands give take w w') (h' : Moves hands give' take' w' w'') :
    Moves hands (give ++ give') (take ++ take') w w'' where
  changes := h.changes.trans h'.changes
  loans := h'.loans.trans h.loans
  balance := by
    intro i hi
    have hfirst := h.balance i fun htaken => hi (htaken.of_adds h'.changes.adds)
    have hsecond := h'.balance i hi
    simp only [List.count_append, Int.natCast_add]
    omega

/-- The same changes, accounted for in another way. -/
theorem settle (h : Moves hands give take w w')
    (hcount : ∀ i, give.count i + take'.count i = give'.count i + take.count i) :
    Moves hands give' take' w w' where
  changes := h.changes
  loans := h.loans
  balance := by
    intro i hi
    have hbalance := h.balance i hi
    have hi := hcount i
    omega

/-- One part is left with what the next one uses up. -/
theorem cancel {mid : List Item} (h : Moves hands give mid w w')
    (h' : Moves hands mid take w' w'') :
    Moves hands give take w w'' := by
  refine (h.trans h').settle fun i => ?_
  simp only [List.count_append]
  omega

/-- What user code took out need not be given. -/
theorem forget {i : Item} (h : Moves hands (i :: give) take w w') (hi : w'.TakenOut i) :
    Moves hands give take w w' where
  changes := h.changes
  loans := h.loans
  balance := by
    intro j hj
    have hbalance := h.balance j hj
    have hne : i ≠ j := fun heq => hj (heq ▸ hi)
    rwa [List.count_cons_of_ne hne] at hbalance

theorem within {others : Hands} (h : Moves others give take w w')
    (hwithin : hands.Within others) :
    Moves hands give take w w' :=
  { h with changes := h.changes.within hwithin }

theorem spare (h : Moves hands give take w w') (e : Key Endpoint) :
    w'.state.spare e + give.count (.reference e) =
      w.state.spare e + take.count (.reference e) := by
  have hbalance := h.balance (.reference e) id
  have hrecorded : ∀ w : World, w.begun (.reference e) = 0 ∧ w.closed (.reference e) = 0 := by
    intro w
    constructor <;> refine List.countP_eq_zero.mpr fun m _ => ?_ <;>
      cases m.occurrence <;> simp [Occurrence.begun?, Occurrence.closed?]
  simp only [World.afloat, State.spareOf, State.attached, hrecorded] at hbalance
  omega

/-- The references that an operation is left with are spare. -/
theorem spare_taken {es : List (Key Endpoint)} (h : Moves hands [] (Item.references es) w w')
    (e : Key Endpoint) :
    es.count e ≤ w'.state.spare e := by
  have hspare := h.spare e
  simp only [List.count_nil, Item.count_reference_references] at hspare
  omega

theorem spare_pos {e : Key Endpoint} (h : Moves hands [] [.reference e] w w') :
    0 < w'.state.spare e := by
  have hspare := h.spare e
  simp only [List.count_nil, List.count_singleton_self] at hspare
  omega

end Moves

/-- Everything is in order, and what is in hands has no name. -/
structure World.Ready (hands : Hands) (w : World) : Prop where
  sound : w.state.Sound
  loose : hands.LooseIn w

namespace World.Ready

variable {hands : Hands} {w : World} {b : Key Batch}

theorem note (hw : w.Ready hands) (o : Occurrence) : (w.note o).Ready hands :=
  ⟨hw.sound, hw.loose⟩

theorem within {others : Hands} (hw : w.Ready others) (hwithin : hands.Within others) :
    w.Ready hands :=
  ⟨hw.sound, fun b hb => hw.loose b fun hmay => hb (hwithin.2 b hmay)⟩

theorem loose_of_lent (hw : w.Ready hands) (hb : hands.Lent b) : w.Loose b :=
  hw.loose b hb.2

theorem hold (hw : w.Ready hands) (hloose : w.Loose b) : w.Ready (hands.hold b) :=
  ⟨hw.sound, hw.loose.hold hloose⟩

theorem lend (hw : w.Ready hands) (hloose : w.Loose b) : w.Ready (hands.lend b) :=
  ⟨hw.sound, hw.loose.lend hloose⟩

end World.Ready

theorem Changes.ready {hands : Hands} {w w' : World} (h : Changes hands w w')
    (hw : w.Ready hands) :
    w'.Ready hands :=
  ⟨h.sound hw.sound, h.looseIn hw.loose⟩

theorem Moves.ready {hands : Hands} {give take : List Item} {w w' : World}
    (h : Moves hands give take w w') (hw : w.Ready hands) :
    w'.Ready hands :=
  h.changes.ready hw

/-! ## Spare references -/

namespace State

variable {s s' : State} {e : Key Endpoint}

/-- References that come into flight are spare. -/
theorem spare_append (s' : State) (hs : s.Sound) (hstranded : s'.stranded = s.stranded)
    {es : List (Key Endpoint)} (hinFlight : s'.inFlight = es ++ s.inFlight) (x : Key Endpoint) :
    s'.spare x = s.spare x + es.count x := by
  have hbacked := hs.backed x
  simp only [spare, hstranded, hinFlight, List.count_append]
  omega

theorem spare_cons (s' : State) (hs : s.Sound) (hstranded : s'.stranded = s.stranded)
    (hinFlight : s'.inFlight = e :: s.inFlight) (x : Key Endpoint) :
    s'.spare x = s.spare x + [e].count x :=
  spare_append s' hs hstranded hinFlight x

/-- Spare references that leave the flight were among the spare ones. -/
theorem spare_foldl_erase {captured : List (Key Endpoint)}
    (hspare : ∀ e, captured.count e ≤ s.spare e) (hstranded : s'.stranded = s.stranded)
    (hinFlight : s'.inFlight = captured.foldl List.erase s.inFlight) (x : Key Endpoint) :
    s'.spare x + captured.count x = s.spare x := by
  have hcount := count_foldl_erase x (Nat.le_trans (hspare x) (s.spare_le_count x))
  have hx := hspare x
  simp only [spare, hstranded, hinFlight] at hx ⊢
  omega

theorem spare_erase (hspare : 0 < s.spare e) (hstranded : s'.stranded = s.stranded)
    (hinFlight : s'.inFlight = s.inFlight.erase e) (x : Key Endpoint) :
    s'.spare x + [e].count x = s.spare x :=
  spare_foldl_erase (count_singleton_le_spare hspare) hstranded hinFlight x

/-- A name that takes a reference gives away the one that it stood for, unless that is in use. -/
theorem spare_keepHandle (hs : s.Sound) (name : String) (hspare : 0 < s.spare e)
    (x : Key Endpoint) :
    (s.keepHandle name e).spare x + [e].count x =
      s.spare x +
        (((s.directory.handles.find? name).filter (· ∉ s.directory.loans)).map
          (·.endpoint)).toList.count x := by
  have hcount := count_erase_of_mem x (mem_inFlight_of_spare hspare)
  have hroom := hs.stranded_le_erase hspare x
  have hbacked := hs.backed x
  cases hfind : s.directory.handles.find? name with
  | none =>
      have hstranded := stranded_keepHandle_of_fresh (e := e) hfind hs.loansOld
      simp only [spare, hstranded]
      simp only [keepHandle, hfind, Option.map_none, Option.filter_none, Option.toList_none,
        List.nil_append, List.count_nil, List.count_singleton, beq_iff_eq] at hcount ⊢
      omega
  | some replaced =>
      have hstranded := count_stranded_keepHandle (e := e) x hfind hs.handlesNodup hs.loansOld
      simp only [spare, hstranded]
      by_cases hloan : replaced ∈ s.directory.loans
      · simp only [keepHandle, hfind, hloan, Option.filter_some, Option.map_some,
          Option.toList_some, List.count_append, List.count_singleton, beq_iff_eq, true_and,
          not_true, decide_false, Bool.false_eq_true, if_false, Option.map_none,
          Option.toList_none, List.count_nil] at hcount ⊢
        omega
      · simp only [keepHandle, hfind, hloan, Option.filter_some, Option.map_some,
          Option.toList_some, List.count_append, List.count_singleton, beq_iff_eq, false_and,
          not_false_eq_true, decide_true, if_true, if_false] at hcount ⊢
        omega

/-- With the last use of a handle without a name its reference becomes spare. -/
theorem spare_unlend (hs : s.Sound) {handle : Handle} (hhandle : handle ∈ s.directory.loans)
    (x : Key Endpoint) :
    (s.setDirectory fun d => { d with loans := d.loans.erase handle }).spare x =
      s.spare x +
        if handle ∉ s.directory.loans.erase handle ∧ handle ∉ s.directory.handles.values then
          [handle.endpoint].count x
        else 0 := by
  have hcount := count_stranded_unlend x hhandle
  have hbacked := hs.backed x
  simp only [spare, List.count_singleton, beq_iff_eq]
  simp only [setDirectory] at hcount ⊢
  by_cases hlast : handle ∉ s.directory.loans.erase handle ∧ handle ∉ s.directory.handles.values
  · simp only [hlast, not_false_eq_true, true_and, and_self, if_true] at hcount ⊢
    omega
  · rw [if_neg hlast]
    rw [if_neg fun h => hlast ⟨h.1, h.2.1⟩] at hcount
    omega

end State

/-! ## What each change moves -/

namespace Change

variable {hands : Hands} {w w' : World}

/-- A change that leaves handlers and values alone moves references only. -/
theorem moves_references (h : Change hands w w') (es es' : List (Key Endpoint))
    (hloans : w'.state.directory.loans = w.state.directory.loans)
    (hspare : ∀ e, w'.state.spare e + es.count e = w.state.spare e + es'.count e)
    (hitems : ∀ b, (w'.state.batches.get b).items b = (w.state.batches.get b).items b)
    (hbegun : ∀ i, w'.begun i = w.begun i) (hclosed : ∀ i, w'.closed i = w.closed i) :
    Moves hands (Item.references es) (Item.references es') w w' where
  changes := .single h
  loans := hloans
  balance := by
    intro i _
    simp only [World.afloat, hbegun, hclosed, State.attached_of_items_eq hitems]
    cases i with
    | reference e =>
        have hspare := hspare e
        simp only [State.spareOf, Item.count_reference_references]
        omega
    | handler b n => simp only [State.spareOf, Item.count_handler_references]
    | data b n => simp only [State.spareOf, Item.count_data_references]

/-- A change of one batch moves what leaves the batch. -/
theorem moves_items {b : Key Batch} {f : Batch → Batch} (h : Change hands w w')
    (es es' : List (Key Endpoint)) (items : List Item) (new : Option Item)
    (hloans : w'.state.directory.loans = w.state.directory.loans)
    (hspare : ∀ e, w'.state.spare e + es.count e = w.state.spare e + es'.count e)
    (hsize : b.index < w.state.batches.size)
    (hbatches : w'.state.batches = w.state.batches.modify b f)
    (hbegun : ∀ i, w'.begun i = w.begun i + new.toList.count i)
    (hclosed : ∀ i, w'.closed i = w.closed i)
    (hreferences : ∀ e, Item.reference e ∉ items)
    (hitems : ∀ i, new.toList.count i + ((w.state.batches.get b).items b).count i =
      ((f (w.state.batches.get b)).items b).count i + items.count i) :
    Moves hands (Item.references es) (items ++ Item.references es') w w' where
  changes := .single h
  loans := hloans
  balance := by
    intro i _
    have hattached := State.attached_modify hsize hbatches i
    have hitems := hitems i
    simp only [World.afloat, hbegun, hclosed, List.count_append]
    cases i with
    | reference e =>
        have hspare := hspare e
        have hnone := List.count_eq_zero.mpr (hreferences e)
        simp only [State.spareOf, Item.count_reference_references]
        omega
    | handler b' n =>
        simp only [State.spareOf, Item.count_handler_references]
        omega
    | data b' n =>
        simp only [State.spareOf, Item.count_data_references]
        omega

end Change

namespace Moves

variable {hands : Hands} {w : World}

theorem consult {bus : Key Bus} {plan : BusPlan Script} (hplan : w.state.KeepsLabel bus plan) :
    Moves hands [] [] w (w.alter (·.setPlan bus plan)) :=
  (Change.consult hplan).moves_references [] [] rfl
    (fun _ => rfl) (fun _ => rfl) (fun _ => rfl) fun _ => rfl

theorem addBus (bus : Bus) :
    Moves hands [] [] w (w.alter fun s => { s with buses := s.buses.push bus }) :=
  (Change.addBus bus).moves_references [] [] rfl
    (fun _ => rfl) (fun _ => rfl) (fun _ => rfl) fun _ => rfl

theorem addTable (name : String) : Moves hands [] [] w (w.alter (·.addTable name)) :=
  (Change.addTable name).moves_references [] [] rfl
    (fun _ => rfl) (fun _ => rfl) (fun _ => rfl) fun _ => rfl

theorem addQueue :
    Moves hands [] [] w (w.alter fun s => { s with queues := s.queues.push default }) :=
  Change.addQueue.moves_references [] [] rfl
    (fun _ => rfl) (fun _ => rfl) (fun _ => rfl) fun _ => rfl

theorem rename {f : Directory → Directory}
    (hhandles : (f w.state.directory).handles = w.state.directory.handles)
    (hbatches : (f w.state.directory).batches = w.state.directory.batches)
    (hloans : (f w.state.directory).loans = w.state.directory.loans)
    (hbuses : ∀ bus ∈ (f w.state.directory).buses.values, bus.index < w.state.buses.size)
    (htables : (f w.state.directory).tables.values.Sublist w.state.directory.tables.values)
    (hqueues : ∀ q ∈ (f w.state.directory).queues.values, q.index < w.state.queues.size) :
    Moves hands [] [] w (w.alter (·.setDirectory f)) :=
  (Change.rename hhandles hbatches hloans hbuses htables hqueues).moves_references
    [] [] hloans
    (by simp [State.spare, State.stranded, State.setDirectory, hhandles, hloans])
    (fun _ => rfl) (fun _ => rfl) fun _ => rfl

theorem createEndpoint (hw : w.state.Sound) {bus : Key Bus} {descriptor : Descriptor}
    (hbus : bus.index < w.state.buses.size) :
    Moves hands [] [.reference w.state.endpoints.nextKey] w
      ((w.alter (·.addEndpoint bus descriptor)).note
        (.endpointCreated w.state.endpoints.nextKey)) :=
  (Change.createEndpoint hbus).moves_references []
    [w.state.endpoints.nextKey] rfl
    (State.spare_cons _ hw rfl rfl) (fun _ => rfl)
    (by simp [Occurrence.begun?]) (by simp [Occurrence.closed?])

theorem acquire (hw : w.state.Sound) {e : Key Endpoint} (v : View)
    (hreferences : 0 < (w.state.endpoints.get e).references) :
    Moves hands [] [.reference e] w
      ((w.alter (·.gainReference e)).noteUnder v (.referenceTaken e)) :=
  (Change.acquire v hreferences).moves_references [] [e] rfl
    (State.spare_cons _ hw rfl rfl) (fun _ => rfl)
    (by simp [Occurrence.begun?]) (by simp [Occurrence.closed?])

theorem release {e : Key Endpoint} (hspare : 0 < w.state.spare e)
    (hreferences : 1 < (w.state.endpoints.get e).references) :
    Moves hands [.reference e] [] w
      ((w.alter (·.loseReference e)).note (.referenceReleased e)) :=
  (Change.release hspare hreferences).moves_references [e] [] rfl
    (State.spare_erase hspare rfl rfl) (fun _ => rfl)
    (by simp [Occurrence.begun?]) (by simp [Occurrence.closed?])

theorem releaseLast {e : Key Endpoint} {plan : BusPlan Script}
    (hspare : 0 < w.state.spare e)
    (hreferences : (w.state.endpoints.get e).references = 1)
    (hplan : w.state.KeepsLabel (w.state.busOf e) plan) :
    Moves hands [.reference e] [] w
      ((((w.alter (·.loseReference e)).note (.referenceReleased e)).alter
        (·.setPlan (w.state.busOf e) plan)).note (.endpointFarewell (w.state.busOf e) e)) :=
  (Change.releaseLast hspare hreferences hplan).moves_references [e] [] rfl
    (State.spare_erase hspare rfl rfl) (fun _ => rfl)
    (by simp [Occurrence.begun?]) (by simp [Occurrence.closed?])

theorem setToggle (e : Key Endpoint) (value : Bool) (v : View) :
    Moves hands [] [] w
      ((w.alter fun s =>
        { s with endpoints := s.endpoints.modify e fun x => { x with toggle := value } }).noteUnder
          v (.toggleSet e value)) :=
  (Change.setToggle e value v).moves_references [] [] rfl
    (fun _ => rfl) (fun _ => rfl)
    (by simp [Occurrence.begun?]) (by simp [Occurrence.closed?])

theorem advanceToggle (e : Key Endpoint) :
    Moves hands [] [] w
      ((w.alter fun s =>
        { s with endpoints := s.endpoints.modify e fun x => { x with toggle := !x.toggle } }).note
          (.toggleAdvanced e)) :=
  (Change.advanceToggle e).moves_references [] [] rfl
    (fun _ => rfl) (fun _ => rfl)
    (by simp [Occurrence.begun?]) (by simp [Occurrence.closed?])

/-- An occurrence settles what is gone with it. -/
theorem note {o : Occurrence} (v : View) (hfits : o.Fits w.state)
    (htouch : ∀ b, o.batch? = some b → hands.MayTouch b)
    (hend : ∀ b, o.endOf? = some b → hands.MayEnd b)
    (hyields : o.Yields → v = .unlocked) :
    Moves hands o.closed?.toList [] w (w.noteUnder v o) where
  changes := .single (.note v hfits htouch hend hyields)
  loans := rfl
  balance := by
    intro i _
    simp only [World.afloat, World.noteUnder_state, World.begun_noteUnder,
      World.closed_noteUnder, Occurrence.begun?_eq_none_of_fits hfits, Option.toList_none,
      List.count_nil]
    omega

/-- An occurrence about one batch, which may be touched. -/
theorem noteOf {o : Occurrence} {b : Key Batch} (hfits : o.Fits w.state)
    (hbatch : o.batch? = some b) (hb : hands.MayTouch b)
    (hend : o.endOf? = none ∨ hands.MayEnd b) :
    Moves hands o.closed?.toList [] w (w.note o) := by
  refine note .unlocked hfits (fun b' h => ?_) (fun b' h => ?_) fun _ => rfl
  · rw [hbatch] at h
    exact Option.some.inj h ▸ hb
  · rcases hend with hend | hend
    · rw [hend] at h
      exact absurd h (Option.some_ne_none b').symm
    · have hsame : o.batch? = some b' := by
        cases o <;> first | exact h | cases h
      rw [hbatch] at hsame
      exact Option.some.inj hsame ▸ hend

/-- An occurrence that is about no batch settles nothing. -/
theorem noteAside {o : Occurrence} (v : View) (hfits : o.Fits w.state)
    (hbatch : o.batch? = none) (hyields : o.Yields → v = .unlocked) :
    Moves hands [] [] w (w.noteUnder v o) := by
  have hend : o.endOf? = none := by
    cases o <;> first | rfl | cases hbatch
  have hclosed : o.closed? = none := by
    cases o <;> first | rfl | cases hbatch
  have hmoves : Moves hands o.closed?.toList [] w (w.noteUnder v o) :=
    .note v hfits (by simp [hbatch]) (by simp [hend]) hyields
  rwa [hclosed] at hmoves

theorem install {t : Key Table} {e : Key Endpoint} (hspare : 0 < w.state.spare e)
    (hnamed : t ∈ w.state.directory.tables.values)
    (hlookup : (w.state.tables.get t).lookup? w.state.targetOf (w.state.targetOf e) = none) :
    Moves hands [.reference e] []
      w ((w.noteUnder (.table t) (.registered t e)).alter (·.install t e)) :=
  (Change.install hspare hnamed hlookup).moves_references [e] [] rfl
    (State.spare_erase hspare rfl rfl) (fun _ => rfl)
    (by simp [Occurrence.begun?]) (by simp [Occurrence.closed?])

theorem uninstall (hw : w.state.Sound) {t : Key Table} {slot : Nat} {e : Key Endpoint}
    {s : State} {m : Moment} {earlier : List Moment}
    (hslot : w.state.uninstall? t slot = some (e, s))
    (hhistory : w.history = m :: earlier)
    (hm : m.occurrence.Uninstalls t e (w.state.targetOf e)) :
    Moves hands [] [.reference e] w (w.alter fun _ => s) := by
  have hchange : Change hands w (w.alter fun _ => s) := .uninstall hslot hhistory hm
  obtain ⟨_, -, rfl⟩ := State.uninstall?_eq_some hslot
  exact hchange.moves_references [] [_] rfl
    (State.spare_cons _ hw rfl rfl) (fun _ => rfl) (fun _ => rfl) fun _ => rfl

theorem giveUpTable (hw : w.state.Sound) {t : Key Table} (ht : t.index < w.state.tables.size)
    (hnamed : t ∉ w.state.directory.tables.values) :
    Moves hands [] (Item.references (w.state.tables.get t).slots.values) w
      ((w.note (.tableGivenUp t)).alter (·.clearTable t)) :=
  (Change.giveUpTable ht hnamed).moves_references [] _ rfl
    (State.spare_append (w.state.clearTable t) hw rfl rfl) (fun _ => rfl)
    (by simp [Occurrence.begun?]) (by simp [Occurrence.closed?])

theorem push {q : Key Queue} (c : Completion) (hq : q.index < w.state.queues.size) :
    Moves hands [] [] w
      ((w.alter (·.setQueue q fun queue => { queue with
        pending := queue.pending ++ [c] })).noteUnder (.queue q) (.pushed q c)) :=
  (Change.push c hq).moves_references [] [] rfl
    (fun _ => rfl) (fun _ => rfl)
    (by simp [Occurrence.begun?]) (by simp [Occurrence.closed?])

theorem handOut {q : Key Queue} {c : Completion} {rest : List Completion}
    (hpending : (w.state.queues.get q).pending = c :: rest) :
    Moves hands [] [] w
      ((w.alter (·.setQueue q fun queue => { queue with pending := rest })).noteUnder
        (.queue q) (.handedOut q c)) :=
  (Change.handOut hpending).moves_references [] [] rfl
    (fun _ => rfl) (fun _ => rfl)
    (by simp [Occurrence.begun?]) (by simp [Occurrence.closed?])

theorem wake {q : Key Queue} {waker : Waker}
    (hwaker : (w.state.queues.get q).waker = some waker) :
    Moves hands [] [] w
      ((w.alter (·.setQueue q fun queue => { queue with waker := none })).note
        (.woken q waker.name)) :=
  (Change.wake hwaker).moves_references [] [] rfl
    (fun _ => rfl) (fun _ => rfl)
    (by simp [Occurrence.begun?]) (by simp [Occurrence.closed?])

theorem leaveWaker {q : Key Queue} (waker : Waker)
    (hpending : (w.state.queues.get q).pending = []) :
    Moves hands [] [] w
      (w.alter (·.setQueue q fun queue => { queue with waker := some waker })) :=
  (Change.leaveWaker waker hpending).moves_references [] [] rfl
    (fun _ => rfl) (fun _ => rfl) (fun _ => rfl) fun _ => rfl

/-- Whatever is asked of a batch, the blank one answers for the batch that is added next. -/
theorem build {e : Key Endpoint} (hspare : 0 < w.state.spare e) :
    Moves hands [.reference e] [] w
      ((w.alter (·.addBatch e)).note (.batchBuilt w.state.batches.nextKey e)) := by
  have hblank : ∀ b, ((w.state.addBatch e).batches.get b).items b =
      (w.state.batches.get b).items b := by
    intro b
    simp only [State.addBatch]
    rw [Arena.get_push]
    split
    · next hb =>
        subst hb
        rw [Arena.get_nextKey]
        rfl
    · rfl
  exact (Change.build hspare).moves_references [e] [] rfl
    (State.spare_erase hspare rfl rfl)
    hblank
    (by simp [Occurrence.begun?]) (by simp [Occurrence.closed?])

theorem giveUpEndpoint (hw : w.state.Sound) {b : Key Batch} {e : Key Endpoint}
    (hb : hands.MayEnd b) (hnamed : b ∉ w.state.directory.batches.values)
    (he : (w.state.batches.get b).endpoint = some e) :
    Moves hands [] [.reference e] w
      ((w.alter (·.detachEndpoint b)).note (.endpointGivenUp b e)) :=
  (Change.giveUpEndpoint hb hnamed he).moves_references [] [e] rfl
    (State.spare_cons (w.state.detachEndpoint b) hw rfl
      (by simp [State.detachEndpoint, he]))
    (fun b' => w.state.batches.apply_get_modify b b' _ (Batch.items b') fun _ => rfl)
    (by simp [Occurrence.begun?]) (by simp [Occurrence.closed?])

theorem edit {b : Key Batch} {t : Transfer} (hb : hands.MayTouch b)
    (hedit : (w.state.transferOf b).Edit t) :
    Moves hands [] [] w (w.alter (·.setTransfer b t)) :=
  (Change.edit hb hedit).moves_references [] [] rfl (fun _ => rfl)
    (fun b' => w.state.batches.apply_get_modify b b' _ (Batch.items b') fun _ => rfl)
    (fun _ => rfl) fun _ => rfl

theorem keepHandle (hw : w.state.Sound) (name : String) {e : Key Endpoint}
    (hspare : 0 < w.state.spare e) :
    Moves hands [.reference e]
      (Item.references
        (((w.state.directory.handles.find? name).filter (· ∉ w.state.directory.loans)).map
          (·.endpoint)).toList)
      w (w.alter (·.keepHandle name e)) :=
  (Change.keepHandle name hspare).moves_references [e] _ rfl
    (State.spare_keepHandle hw name hspare) (fun _ => rfl) (fun _ => rfl) fun _ => rfl

theorem takeHandle (hw : w.state.Sound) {name : String} {handle : Handle}
    (hfind : w.state.directory.handles.find? name = some handle)
    (hloan : handle ∉ w.state.directory.loans) :
    Moves hands [] [.reference handle.endpoint] w (w.alter (·.takeHandle name)) :=
  (Change.takeHandle hfind hloan).moves_references [] [handle.endpoint] rfl
    (State.spare_cons _ hw (State.stranded_takeHandle hfind hloan)
      (by simp [State.takeHandle, hfind]))
    (fun _ => rfl) (fun _ => rfl) fun _ => rfl

theorem nameBatch (name : String) {b : Key Batch} (hb : hands.MayEnd b)
    (hsize : b.index < w.state.batches.size)
    (hnamed : b ∉ w.state.directory.batches.values)
    (hendpoint : (w.state.batches.get b).endpoint.isSome) :
    Moves hands [] [] w
      (w.alter (·.setDirectory fun d => { d with batches := d.batches.insert name b })) :=
  (Change.nameBatch name hb hsize hnamed hendpoint).moves_references [] [] rfl
    (fun _ => rfl) (fun _ => rfl) (fun _ => rfl) fun _ => rfl

theorem unnameBatch {name : String} {b : Key Batch}
    (hfind : w.state.directory.batches.find? name = some b) :
    Moves hands [] [] w
      (w.alter (·.setDirectory fun d => { d with batches := d.batches.erase name })) :=
  (Change.unnameBatch hfind).moves_references [] [] rfl
    (fun _ => rfl) (fun _ => rfl) (fun _ => rfl) fun _ => rfl

theorem detachHandler (hw : w.state.Sound) {b : Key Batch} {handler : Handler}
    (hb : hands.MayTouch b) (hhandler : (w.state.batches.get b).handler = some handler) :
    Moves hands [] (.handler b handler.serial :: Item.references handler.captured) w
      (w.alter (·.detachHandler b)) :=
  (Change.detachHandler hb hhandler).moves_items [] _
    [.handler b handler.serial] none rfl
    (State.spare_append (w.state.detachHandler b) hw rfl
      (by simp [State.detachHandler, hhandler]))
    (State.index_lt_of_handler hhandler) rfl (fun _ => rfl) (fun _ => rfl) (by simp)
    (fun i => by simp [Batch.items, hhandler, List.count_cons, Nat.add_comm])

theorem handOver (hw : w.state.Sound) {b : Key Batch} {handler : Handler}
    (hb : hands.MayEnd b) (hhandler : (w.state.batches.get b).handler = some handler) :
    Moves hands [] (.handler b handler.serial :: Item.references handler.captured) w
      ((w.alter fun s =>
          (s.detachHandler b).setTransfer b (s.transferOf b).withoutBuffer).note
        (.handlerInvoked b handler.serial handler.name? (w.state.transferOf b).completion)) :=
  (Change.handOver hb hhandler).moves_items [] _
    [.handler b handler.serial] none rfl
    (State.spare_append (w.state.detachHandler b) hw rfl
      (by simp [State.detachHandler, hhandler]))
    (State.index_lt_of_handler hhandler) (w.state.batches.modify_modify b _ _)
    (by simp [Occurrence.begun?]) (by simp [Occurrence.closed?]) (by simp)
    (fun i => by simp [Batch.items, hhandler, List.count_cons, Nat.add_comm])

theorem attachHandler {b : Key Batch} {action : HandlerAction}
    {captured : List (Key Endpoint)} {noisy : Bool} (hb : hands.MayTouch b)
    (hsize : b.index < w.state.batches.size)
    (hnone : (w.state.batches.get b).handler = none)
    (hspare : ∀ e, captured.count e ≤ w.state.spare e) (hforwards : w.state.Forwards action) :
    Moves hands (Item.references captured) [] w
      ((w.alter (·.attachHandler b action captured noisy)).note
        (.handlerAttached b w.state.serial)) :=
  (Change.attachHandler hb hsize hnone hspare hforwards).moves_items _ []
    [] (some (.handler b w.state.serial)) rfl
    (State.spare_foldl_erase hspare rfl rfl) hsize rfl
    (by simp [Occurrence.begun?]) (by simp [Occurrence.closed?]) (by simp)
    (fun i => by simp [Batch.items, hnone, List.count_cons, Nat.add_comm])

theorem detachData (hw : w.state.Sound) {b : Key Batch} {a : Attachment}
    (hb : hands.MayTouch b) (hdata : (w.state.batches.get b).data = some a) :
    Moves hands [] (.data b a.serial :: Item.references a.value.captured) w
      (w.alter (·.detachData b)) :=
  (Change.detachData hb hdata).moves_items [] _
    [.data b a.serial] none rfl
    (State.spare_append (w.state.detachData b) hw rfl
      (by simp [State.detachData, hdata]))
    (State.index_lt_of_data hdata) rfl (fun _ => rfl) (fun _ => rfl) (by simp)
    (fun i => by simp [Batch.items, hdata, List.count_append])

theorem attachData {b : Key Batch} {value : DataValue} (hb : hands.MayTouch b)
    (hsize : b.index < w.state.batches.size)
    (hnone : (w.state.batches.get b).data = none)
    (hspare : ∀ e, value.captured.count e ≤ w.state.spare e) :
    Moves hands (Item.references value.captured) [] w
      ((w.alter (·.attachData b value)).note (.dataAttached b w.state.serial)) :=
  (Change.attachData hb hsize hnone hspare).moves_items _ []
    [] (some (.data b w.state.serial)) rfl
    (State.spare_foldl_erase hspare rfl rfl) hsize rfl
    (by simp [Occurrence.begun?]) (by simp [Occurrence.closed?]) (by simp)
    (fun i => by simp [Batch.items, hnone, List.count_append, Nat.add_comm])

theorem changeData {b : Key Batch} {a : Attachment} {change : DataChange}
    {value : DataValue} (hb : hands.MayTouch b)
    (hdata : (w.state.batches.get b).data = some a)
    (hchange : a.value.change? change = some value) :
    Moves hands [] [] w
      (w.alter fun s => { s with
        batches := s.batches.modify b fun batch =>
          { batch with data := some { a with value := value } } }) :=
  (Change.changeData hb hdata hchange).moves_items [] []
    [] none rfl (fun _ => rfl) (State.index_lt_of_data hdata) rfl
    (fun _ => rfl) (fun _ => rfl) (by simp)
    (fun i => by simp [Batch.items, hdata])

end Moves

end UsbTransfer
