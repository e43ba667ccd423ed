import UsbTransfer.Proofs.Balances

/-!
# Serial numbers

Handlers and attached values have serial numbers that are not given twice.  So none comes into
being again that has its number already, and a value that was taken out of its batch does not
return there.
-/

namespace UsbTransfer

variable {hands : Hands} {w w' : World}

/-- The item got its serial number before. -/
def State.Numbered (s : State) : Item → Prop
  | .reference _ => False
  | .handler _ n | .data _ n => n < s.serial

theorem State.Numbered.mono {s s' : State} {i : Item} (hi : s.Numbered i)
    (hle : s.serial ≤ s'.serial) :
    s'.Numbered i := by
  cases i with
  | reference e => exact hi
  | handler b n | data b n => exact Nat.lt_of_lt_of_le hi hle

theorem Change.serial_le (h : Change hands w w') : w.state.serial ≤ w'.state.serial := by
  cases h with
  | uninstall hslot =>
      obtain ⟨_, -, rfl⟩ := State.uninstall?_eq_some hslot
      exact Nat.le_refl _
  | keepHandle | attachHandler | attachData => exact Nat.le_succ _
  | _ => exact Nat.le_refl _

/-- What comes into being gets its number then. -/
theorem Change.begun_cases (h : Change hands w w') (i : Item) :
    w'.begun i = w.begun i ∨
      ¬ w.state.Numbered i ∧ w'.state.Numbered i ∧ w'.begun i = w.begun i + 1 := by
  cases h with
  | consult | addBus | addTable | addQueue | rename | uninstall | leaveWaker | edit
  | detachHandler | detachData | changeData | keepHandle | takeHandle | lend | unlend
  | nameBatch | unnameBatch => exact .inl rfl
  | createEndpoint | acquire | release | releaseLast | setToggle | advanceToggle | install
  | giveUpTable | push | handOut | wake | build | giveUpEndpoint | handOver =>
      exact .inl (by simp [Occurrence.begun?])
  | note v hfits => exact .inl (by simp [Occurrence.begun?_eq_none_of_fits hfits])
  | attachHandler | attachData =>
      simp only [World.begun_note, World.begun_alter, Occurrence.begun?, Option.toList_some,
        List.count_singleton, beq_iff_eq]
      split
      · next hsame =>
          subst hsame
          exact .inr ⟨Nat.lt_irrefl _, Nat.lt_succ_self _, rfl⟩
      · exact .inl rfl

/-- What has its number does not come into being again. -/
theorem Changes.begun_eq (h : Changes hands w w') {i : Item} (hi : w.state.Numbered i) :
    w'.begun i = w.begun i := by
  have hkept : w'.begun i = w.begun i ∧ w'.state.Numbered i := by
    induction h with
    | refl => exact ⟨rfl, hi⟩
    | tail _ hchange ih =>
        have hsame := (hchange.begun_cases i).resolve_right fun hnew => hnew.1 ih.2
        exact ⟨hsame.trans ih.1, ih.2.mono hchange.serial_le⟩
  exact hkept.1

/-- Nothing came into being twice, and what did has its number. -/
structure World.BegunOnce (w : World) : Prop where
  once : ∀ i, w.begun i ≤ 1
  numbered : ∀ i, ¬ w.state.Numbered i → w.begun i = 0

theorem begunOnce_empty : World.empty.BegunOnce where
  once := fun _ => Nat.zero_le _
  numbered := fun _ _ => rfl

theorem Change.begunOnce (h : Change hands w w') (hw : w.BegunOnce) : w'.BegunOnce := by
  constructor
  · intro i
    rcases h.begun_cases i with hsame | ⟨hnew, -, hbegun⟩
    · exact hsame ▸ hw.once i
    · have hnone := hw.numbered i hnew
      omega
  · intro i hi
    have hunnumbered : ¬ w.state.Numbered i := fun hold => hi (hold.mono h.serial_le)
    rcases h.begun_cases i with hsame | ⟨-, hnumbered, -⟩
    · exact hsame.trans (hw.numbered i hunnumbered)
    · exact absurd hnumbered hi

theorem Changes.begunOnce (h : Changes hands w w') (hw : w.BegunOnce) : w'.BegunOnce :=
  kept_of_steps (fun _ _ => Change.begunOnce) h hw

/-- What is attached to a batch has its number. -/
theorem State.Sound.numbered {s : State} (hs : s.Sound) {i : Item} (hi : s.attached i ≠ 0) :
    s.Numbered i := by
  have hitem : ∀ b, i ∈ (s.batches.get b).items b → s.Numbered i := by
    intro b hmem
    rcases List.mem_append.mp hmem with hmem | hmem
    · obtain ⟨handler, hhandler, rfl⟩ := Option.map_eq_some_iff.mp (Option.mem_toList.mp hmem)
      exact (hs.itemsOld b).1 handler hhandler
    · obtain ⟨a, ha, rfl⟩ := Option.map_eq_some_iff.mp (Option.mem_toList.mp hmem)
      exact (hs.itemsOld b).2 a ha
  cases i with
  | reference e => exact absurd rfl hi
  | handler b n | data b n => exact hitem b (List.count_pos_iff.mp (Nat.pos_of_ne_zero hi))

/-- Values that were taken out of a batch have their numbers and are not in it. -/
def World.TakenAway (w : World) : Prop :=
  ∀ b n, w.TakenOut (.data b n) →
    n < w.state.serial ∧ ∀ a, (w.state.batches.get b).data = some a → a.serial ≠ n

theorem takenAway_empty : World.empty.TakenAway := by
  rintro b n ⟨m, hm, -⟩
  exact absurd hm List.not_mem_nil

/-- A change puts no value into a batch, unless a new one. -/
theorem Change.data_serial (h : Change hands w w') {b : Key Batch} {a : Attachment}
    (ha : (w'.state.batches.get b).data = some a) :
    (∃ a', (w.state.batches.get b).data = some a' ∧ a'.serial = a.serial) ∨
      w.state.serial ≤ a.serial := by
  have hmodified : ∀ (b' : Key Batch) (f : Batch → Batch),
      ((w.state.batches.modify b' f).get b).data = some a →
      (∀ a, (f (w.state.batches.get b')).data = some a →
        (∃ a', (w.state.batches.get b').data = some a' ∧ a'.serial = a.serial) ∨
          w.state.serial ≤ a.serial) →
        (∃ a', (w.state.batches.get b).data = some a' ∧ a'.serial = a.serial) ∨
          w.state.serial ≤ a.serial := by
    intro b' f ha hf
    rw [Arena.get_modify] at ha
    split at ha
    · next heq =>
        rw [heq.1]
        exact hf a ha
    · exact .inl ⟨a, ha, rfl⟩
  cases h with
  | uninstall hslot =>
      obtain ⟨_, -, rfl⟩ := State.uninstall?_eq_some hslot
      exact .inl ⟨a, ha, rfl⟩
  | build =>
      simp only [World.note_state, World.alter_state, State.addBatch, Arena.get_push] at ha
      split at ha
      · cases ha
      · exact .inl ⟨a, ha, rfl⟩
  | giveUpEndpoint | edit | detachHandler | attachHandler =>
      exact hmodified _ _ ha fun a ha => .inl ⟨a, ha, rfl⟩
  | handOver hb hhandler =>
      simp only [World.note_state, World.alter_state, State.setTransfer, State.detachHandler,
        Arena.modify_modify] at ha
      exact hmodified _ _ ha fun a ha => .inl ⟨a, ha, rfl⟩
  | detachData => exact hmodified _ _ ha (by simp)
  | attachData =>
      refine hmodified _ _ ha fun a ha => .inr ?_
      obtain rfl := Option.some.inj ha
      exact Nat.le_refl _
  | changeData hb hdata =>
      refine hmodified _ _ ha fun a ha => .inl ⟨_, hdata, ?_⟩
      obtain rfl := Option.some.inj ha
      rfl
  | _ => exact .inl ⟨a, ha, rfl⟩

/-- What is taken out of a batch with a change was taken out before, or is not in it any more. -/
theorem Change.takenOut (h : Change hands w w') {b : Key Batch} {n : Nat}
    (hn : w'.TakenOut (.data b n)) :
    w.TakenOut (.data b n) ∨
      n < w'.state.serial ∧ (w'.state.batches.get b).data = none := by
  obtain ⟨m, hm, ho⟩ := hn
  have hold : ∀ {o : Occurrence} {s : State} {earlier : List Moment},
      m ∈ ⟨o, s⟩ :: earlier → o ≠ .dataTaken b n → m ∈ earlier := by
    intro o s earlier hm hne
    rcases List.mem_cons.mp hm with rfl | hm
    · exact absurd ho hne
    · exact hm
  cases h with
  | consult | addBus | addTable | addQueue | rename | uninstall | leaveWaker | edit
  | detachHandler | detachData | changeData | keepHandle | takeHandle | lend | unlend
  | nameBatch | unnameBatch => exact .inl ⟨m, hm, ho⟩
  | createEndpoint | acquire | release | setToggle | advanceToggle | install | giveUpTable
  | push | handOut | wake | build | giveUpEndpoint | handOver | attachHandler | attachData =>
      exact .inl ⟨m, hold hm (by simp), ho⟩
  | releaseLast => exact .inl ⟨m, hold (hold hm (by simp)) (by simp), ho⟩
  | note v hfits =>
      rcases List.mem_cons.mp hm with rfl | hm
      · subst ho
        exact .inr ⟨hfits.2, hfits.1⟩
      · exact .inl ⟨m, hm, ho⟩

theorem Change.takenAway (h : Change hands w w') (htaken : w.TakenAway) : w'.TakenAway := by
  intro b n hn
  rcases h.takenOut hn with hn | ⟨hn, hnone⟩
  · obtain ⟨hold, haway⟩ := htaken b n hn
    refine ⟨Nat.lt_of_lt_of_le hold h.serial_le, fun a ha => ?_⟩
    rcases h.data_serial ha with ⟨a', ha', hsame⟩ | hnew
    · exact hsame ▸ haway a' ha'
    · omega
  · exact ⟨hn, by simp [hnone]⟩

theorem Changes.takenAway (h : Changes Hands.empty World.empty w) : w.TakenAway :=
  kept_of_steps (fun _ _ => Change.takenAway) h takenAway_empty

end UsbTransfer
