import UsbTransfer.Proofs.Serials

/-!
# Registrations of handlers

A handler is invoked only as long as its batch has it, and loses its batch then.  Since no handler
returns to a batch and no serial number is given twice, it is invoked once at most, and neither
after it was replaced nor after its batch ended.
-/

namespace UsbTransfer

namespace State

/-- The batch has the handler of that number, or nobody has got the number yet. -/
def Awaits (s : State) (b : Key Batch) (n : Nat) : Prop :=
  (∃ handler, (s.batches.get b).handler = some handler ∧ handler.serial = n) ∨ s.serial ≤ n

/-- A state that comes before another one awaits what is awaited then. -/
structure Precedes (s s' : State) : Prop where
  serial : s.serial ≤ s'.serial
  awaits : ∀ {b n}, s'.Awaits b n → s.Awaits b n

variable {s s' s'' : State}

theorem Precedes.trans (h : s.Precedes s') (h' : s'.Precedes s'') : s.Precedes s'' :=
  ⟨Nat.le_trans h.serial h'.serial, fun hawaits => h.awaits (h'.awaits hawaits)⟩

theorem precedes_of_same (hbatches : s.batches = s'.batches) (hserial : s.serial = s'.serial) :
    s.Precedes s' := by
  refine ⟨Nat.le_of_eq hserial, fun h => ?_⟩
  unfold Awaits at h ⊢
  rwa [hbatches, hserial]

end State

variable {hands : Hands} {w w' : World} {m : Moment} {earlier : List Moment} {b : Key Batch}
  {n : Nat}

/-- A change gives no handler to a batch, unless a new one. -/
theorem Change.handler_cases (h : Change hands w w') {handler : Handler}
    (hhandler : (w'.state.batches.get b).handler = some handler) :
    (w.state.batches.get b).handler = some handler ∨ w.state.serial ≤ handler.serial := by
  have hmodified : ∀ (b' : Key Batch) (f : Batch → Batch),
      ((w.state.batches.modify b' f).get b).handler = some handler →
      ((f (w.state.batches.get b')).handler = some handler →
        (w.state.batches.get b').handler = some handler ∨ w.state.serial ≤ handler.serial) →
        (w.state.batches.get b).handler = some handler ∨ w.state.serial ≤ handler.serial := by
    intro b' f hhandler hf
    rw [Arena.get_modify] at hhandler
    split at hhandler
    · next heq =>
        rw [heq.1]
        exact hf hhandler
    · exact .inl hhandler
  cases h with
  | uninstall hslot =>
      obtain ⟨_, -, rfl⟩ := State.uninstall?_eq_some hslot
      exact .inl hhandler
  | build =>
      simp only [World.note_state, World.alter_state, State.addBatch, Arena.get_push] at hhandler
      split at hhandler
      · cases hhandler
      · exact .inl hhandler
  | giveUpEndpoint | edit | detachData | attachData | changeData =>
      exact hmodified _ _ hhandler .inl
  | detachHandler => exact hmodified _ _ hhandler (by simp)
  | handOver =>
      simp only [World.note_state, World.alter_state, State.setTransfer, State.detachHandler,
        Arena.modify_modify] at hhandler
      exact hmodified _ _ hhandler (by simp)
  | attachHandler =>
      refine hmodified _ _ hhandler fun hnew => .inr ?_
      obtain rfl := Option.some.inj hnew
      exact Nat.le_refl _
  | _ => exact .inl hhandler

theorem Change.precedes (h : Change hands w w') : w.state.Precedes w'.state := by
  refine ⟨h.serial_le, fun {b n} hawaits => ?_⟩
  rcases hawaits with ⟨handler, hhandler, rfl⟩ | hlater
  · exact (h.handler_cases hhandler).imp_left fun hhandler => ⟨handler, hhandler, rfl⟩
  · exact .inr (Nat.le_trans h.serial_le hlater)

/-- What is recorded with a change tells of the batches as they are then, and of an invocation
only when a batch loses its handler.  A handler that is given to a batch has got its number. -/
structure World.Records (w w' : World) (m : Moment) (earlier : List Moment) : Prop where
  batches : m.state.batches = w'.state.batches
  serial : m.state.serial = w'.state.serial
  attached : ∀ b n, m.occurrence = .handlerAttached b n → n < m.state.serial
  invoked : ∀ b n name? c, m.occurrence = .handlerInvoked b n name? c →
    earlier = w.history ∧ (w'.state.batches.get b).handler = none ∧
      ∃ handler, (w.state.batches.get b).handler = some handler ∧ handler.serial = n

theorem Change.records (h : Change hands w w') (hm : m :: earlier <:+ w'.history) :
    m :: earlier <:+ w.history ∨ w.Records w' m earlier := by
  have hview : ∀ (v : View) (s : State),
      (v.of s).batches = s.batches ∧ (v.of s).serial = s.serial :=
    fun v s => by cases v <;> exact ⟨rfl, rfl⟩
  have hone : ∀ {o : Occurrence} {s : State}, w'.history = ⟨o, s⟩ :: w.history →
      s.batches = w'.state.batches ∧ s.serial = w'.state.serial →
      (∀ b n, o = .handlerAttached b n → n < s.serial) →
      (∀ b n name? c, o = .handlerInvoked b n name? c →
        (w'.state.batches.get b).handler = none ∧
          ∃ handler, (w.state.batches.get b).handler = some handler ∧ handler.serial = n) →
        m :: earlier <:+ w.history ∨ w.Records w' m earlier := by
    intro o s hhistory hsame hattached hinvoked
    rw [hhistory] at hm
    rcases List.suffix_cons_iff.mp hm with heq | hm
    · obtain ⟨rfl, rfl⟩ := List.cons.inj heq
      exact .inr ⟨hsame.1, hsame.2, hattached,
        fun b n name? c ho => ⟨rfl, hinvoked b n name? c ho⟩⟩
    · exact .inl hm
  cases h with
  | consult | addBus | addTable | addQueue | rename | uninstall | leaveWaker | edit
  | detachHandler | detachData | changeData | keepHandle | takeHandle | lend | unlend
  | nameBatch | unnameBatch => exact .inl hm
  | createEndpoint | release | advanceToggle | wake | build | giveUpEndpoint | attachData
  | giveUpTable => exact hone rfl ⟨rfl, rfl⟩ (by simp) (by simp)
  | acquire v | setToggle _ _ v => exact hone rfl (hview v _) (by simp) (by simp)
  | @install t => exact hone rfl (hview (.table t) w.state) (by simp) (by simp)
  | @push q | @handOut q => exact hone rfl (hview (.queue q) _) (by simp) (by simp)
  | note v hfits =>
      refine hone rfl (hview v _) (fun b n ho => ?_) fun b n name? c ho => ?_ <;> subst ho
      · exact hfits.elim
      · exact hfits.elim
  | attachHandler =>
      refine hone rfl ⟨rfl, rfl⟩ (fun b' n ho => ?_) (by simp)
      obtain ⟨rfl, rfl⟩ := Occurrence.handlerAttached.inj ho
      exact Nat.lt_succ_self _
  | @handOver b handler hb hhandler =>
      refine hone rfl ⟨rfl, rfl⟩ (by simp) fun b' n name? c ho => ?_
      obtain ⟨rfl, rfl, -, -⟩ := Occurrence.handlerInvoked.inj ho
      refine ⟨?_, handler, hhandler, rfl⟩
      simp only [World.note_state, World.alter_state, State.setTransfer, State.detachHandler,
        Arena.modify_modify]
      rw [Arena.get_modify_self _ _ _ (State.index_lt_of_handler hhandler)]
      rfl
  | releaseLast =>
      simp only [World.note_history, World.alter_history] at hm
      rcases List.suffix_cons_iff.mp hm with heq | hm
      · obtain ⟨rfl, -⟩ := List.cons.inj heq
        exact .inr ⟨rfl, rfl, by simp, by simp⟩
      · rcases List.suffix_cons_iff.mp hm with heq | hm
        · obtain ⟨rfl, -⟩ := List.cons.inj heq
          exact .inr ⟨rfl, rfl, by simp, by simp⟩
        · exact .inl hm

/-- What is told of the batches by the states of a history: each precedes the next one, and who is
invoked was awaited up to then and is not any more. -/
structure World.Chronicled (w : World) : Prop where
  now : ∀ m ∈ w.history, m.state.Precedes w.state
  whenever : ∀ {m earlier}, m :: earlier <:+ w.history → ∀ m' ∈ earlier,
    m'.state.Precedes m.state
  attached : ∀ m ∈ w.history, ∀ b n, m.occurrence = .handlerAttached b n → n < m.state.serial
  invoked : ∀ {m earlier b n name? c}, m :: earlier <:+ w.history →
    m.occurrence = .handlerInvoked b n name? c →
      (∀ m' ∈ earlier, m'.state.Awaits b n) ∧ ¬ m.state.Awaits b n

theorem chronicled_empty : World.empty.Chronicled where
  now := fun _ hm => absurd hm List.not_mem_nil
  whenever := fun hm => absurd (List.suffix_nil.mp hm) (List.cons_ne_nil _ _)
  attached := fun _ hm => absurd hm List.not_mem_nil
  invoked := fun hm => absurd (List.suffix_nil.mp hm) (List.cons_ne_nil _ _)

theorem Change.chronicled (h : Change hands w w') (hw : w.state.Sound)
    (hchronicled : w.Chronicled) :
    w'.Chronicled := by
  have hsplit : ∀ m ∈ w'.history, m ∈ w.history ∨ ∃ earlier, w.Records w' m earlier := by
    intro m hm
    obtain ⟨later, earlier, hhistory⟩ := List.append_of_mem hm
    have hsuffix : m :: earlier <:+ w'.history := ⟨later, hhistory.symm⟩
    exact (h.records hsuffix).imp (fun hold => hold.subset List.mem_cons_self)
      fun hrecords => ⟨earlier, hrecords⟩
  have hnow : ∀ m ∈ w'.history, m.state.Precedes w'.state := by
    intro m hm
    rcases hsplit m hm with hold | ⟨earlier, hrecords⟩
    · exact (hchronicled.now m hold).trans h.precedes
    · exact State.precedes_of_same hrecords.batches hrecords.serial
  refine ⟨hnow, fun {m earlier} hm m' hm' => ?_, fun m hm b n ho => ?_,
    fun {m earlier b n name? c} hm ho => ?_⟩
  · rcases h.records hm with hold | hrecords
    · exact hchronicled.whenever hold m' hm'
    · exact (hnow m' (hm.subset (List.mem_cons_of_mem m hm'))).trans
        (State.precedes_of_same hrecords.batches.symm hrecords.serial.symm)
  · rcases hsplit m hm with hold | ⟨earlier, hrecords⟩
    · exact hchronicled.attached m hold b n ho
    · exact hrecords.attached b n ho
  · rcases h.records hm with hold | hrecords
    · exact hchronicled.invoked hold ho
    · obtain ⟨rfl, hnone, handler, hhandler, rfl⟩ := hrecords.invoked b n name? c ho
      refine ⟨fun m' hm' => (hchronicled.now m' hm').awaits (.inl ⟨handler, hhandler, rfl⟩), ?_⟩
      rintro (⟨handler', hhandler', -⟩ | hlater)
      · rw [hrecords.batches, hnone] at hhandler'
        cases hhandler'
      · have hold : handler.serial < w.state.serial := (hw.itemsOld b).1 handler hhandler
        have hle := h.serial_le
        have hserial := hrecords.serial
        omega

theorem Changes.chronicled (h : Changes Hands.empty World.empty w) : w.Chronicled :=
  Changes.kept (fun _ _ => Change.chronicled) h State.sound_empty chronicled_empty

/-- What comes into being does so at one moment. -/
theorem World.BegunOnce.unique (hw : w.BegunOnce) {m' : Moment} {i : Item} (hm : m ∈ w.history)
    (hm' : m' ∈ w.history) (hi : m.occurrence.begun? = some i)
    (hi' : m'.occurrence.begun? = some i) :
    m = m' := by
  obtain ⟨later, earlier, hhistory⟩ := List.append_of_mem hm
  have honce := hw.once i
  simp only [World.begun, World.tally, hhistory, List.countP_append,
    List.countP_cons_of_pos (l := earlier) (p := fun m => decide (m.occurrence.begun? = some i))
      (decide_eq_true hi)] at honce
  have hother : ∀ history : List Moment,
      history.countP (fun m => decide (m.occurrence.begun? = some i)) = 0 → m' ∉ history :=
    fun history hnone hmem => List.countP_eq_zero.mp hnone m' hmem (decide_eq_true hi')
  rw [hhistory] at hm'
  rcases List.mem_append.mp hm' with hlater | hrest
  · exact absurd hlater (hother later (by omega))
  · rcases List.mem_cons.mp hrest with rfl | hearlier
    · rfl
    · exact absurd hearlier (hother earlier (by omega))

namespace World.Chronicled

/-- A handler is invoked once at most. -/
theorem invoked_once (h : w.Chronicled) {m' : Moment} {earlier' : List Moment}
    {name? name'? : Option String} {c c' : Completion} (hm : m :: earlier <:+ w.history)
    (hm' : m' :: earlier' <:+ w.history) (ho : m.occurrence = .handlerInvoked b n name? c)
    (ho' : m'.occurrence = .handlerInvoked b n name'? c') :
    m :: earlier = m' :: earlier' := by
  have hlater : ∀ {m m' : Moment} {earlier earlier' : List Moment} {name? name'? c c'},
      m' :: earlier' <:+ w.history → m.occurrence = .handlerInvoked b n name? c →
      m'.occurrence = .handlerInvoked b n name'? c' → m :: earlier <:+ w.history →
        ¬ m :: earlier <:+ earlier' := by
    intro m m' earlier earlier' name? name'? c c' hm' ho ho' hm hinside
    exact (h.invoked hm ho).2 ((h.invoked hm' ho').1 m (hinside.subset List.mem_cons_self))
  rcases List.suffix_or_suffix_of_suffix hm hm' with hinside | hinside
  · exact (List.suffix_cons_iff.mp hinside).resolve_right (hlater hm' ho ho' hm)
  · exact ((List.suffix_cons_iff.mp hinside).resolve_right (hlater hm ho' ho hm')).symm

/-- Who is invoked was in the batch ever since it was given to it. -/
theorem kept (h : w.Chronicled) {a m' : Moment} {between : List Moment} {name? : Option String}
    {c : Completion} (hm : m :: (between ++ a :: earlier) <:+ w.history)
    (ho : m.occurrence = .handlerInvoked b n name? c) (ha : a.occurrence = .handlerAttached b n)
    (hm' : m' ∈ between) :
    ∃ handler, (m'.state.batches.get b).handler = some handler ∧ handler.serial = n := by
  have hawaits := (h.invoked hm ho).1 m' (List.mem_append_left _ hm')
  refine hawaits.resolve_right fun hlater => ?_
  obtain ⟨later, since, rfl⟩ := List.append_of_mem hm'
  have hsuffix : m' :: (since ++ a :: earlier) <:+ w.history := by
    refine List.IsSuffix.trans ⟨m :: later, ?_⟩ hm
    simp
  have hprecedes := h.whenever hsuffix a (by simp)
  have hold := h.attached a (hsuffix.subset (by simp)) b n ha
  have hle := hprecedes.serial
  omega

end World.Chronicled

end UsbTransfer
