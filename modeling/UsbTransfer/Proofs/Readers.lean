import UsbTransfer.Text.Hex
import Mathlib.Data.List.Infix

/-!
# Readers of texts

A reader takes a value off the front of a text and leaves what stands behind it, or finds no value
there.  It is exact for a spelling of values when it finds a value just where its spelling stands,
whatever stands behind.  A spelling with an exact reader is legible: no two values share a text, and
a whole text is read back as the value that it spells.

Exact readers are put together one behind the other, and side by side where no word begins another
one.  Numerals alone have no exact reader, since the digits of one number may begin those of
another; together with a mark that is no digit they have one.
-/

namespace UsbTransfer

/-- Takes a value off the front of a text. -/
abbrev Reader (α : Type) := StateT (List Char) Option α

/-- The values are told apart by their texts and read back from them. -/
structure Legible {α : Type} (spell : α → String) (read? : String → Option α) : Prop where
  /-- A text is read as a value just where it spells the value. -/
  read : ∀ text a, read? text = some a ↔ spell a = text
  /-- Equal texts stand for equal values. -/
  distinct : ∀ a b, spell a = spell b ↔ a = b

namespace Reader

variable {α β : Type} {text rest : List Char}

/-- The reader finds a value just where its spelling stands. -/
def Exact (r : Reader α) (spell : α → String) : Prop :=
  ∀ text a rest, r text = some (a, rest) ↔ (spell a).toList ++ rest = text

/-- Reads a text with nothing behind the value. -/
def whole? (r : Reader α) (text : String) : Option α :=
  match r text.toList with
  | some (a, []) => some a
  | _ => none

theorem whole?_eq_some_iff {r : Reader α} {line : String} {a : α} :
    r.whole? line = some a ↔ r line.toList = some (a, []) := by
  unfold whole?
  split
  · next hread => simp [hread]
  · next hother =>
      constructor
      · nofun
      · intro hread
        exact absurd hread (hother a)

/-- What has an exact reader is legible. -/
theorem Exact.legible {r : Reader α} {spell : α → String} (h : r.Exact spell) :
    Legible spell r.whole? := by
  have hread : ∀ line a, r.whole? line = some a ↔ spell a = line := by
    intro line a
    rw [whole?_eq_some_iff, h, List.append_nil, String.toList_inj]
  constructor
  · exact hread
  · intro a b
    constructor
    · intro heq
      have ha : r.whole? (spell a) = some a := (hread _ a).mpr rfl
      have hb : r.whole? (spell a) = some b := (hread _ b).mpr heq.symm
      exact Option.some.inj (ha.symm.trans hb)
    · rintro rfl
      rfl

/-! ### One behind the other -/

theorem pure_eq_some_iff {a b : α} :
    (pure a : Reader α) text = some (b, rest) ↔ a = b ∧ text = rest := by
  change some (a, text) = some (b, rest) ↔ _
  rw [Option.some.injEq, Prod.mk.injEq]

theorem bind_eq_some_iff {r : Reader α} {next : α → Reader β} {b : β} :
    (r >>= next) text = some (b, rest) ↔
      ∃ a mid, r text = some (a, mid) ∧ next a mid = some (b, rest) := by
  change (r text).bind (fun found => next found.1 found.2) = _ ↔ _
  rw [Option.bind_eq_some_iff, Prod.exists]

theorem map_eq_some_iff {r : Reader α} {f : α → β} {b : β} :
    (f <$> r) text = some (b, rest) ↔ ∃ a, r text = some (a, rest) ∧ f a = b := by
  rw [map_eq_pure_bind, bind_eq_some_iff]
  simp only [pure_eq_some_iff]
  constructor
  · rintro ⟨a, mid, hread, hb, rfl⟩
    exact ⟨a, hread, hb⟩
  · rintro ⟨a, hread, hb⟩
    exact ⟨a, rest, hread, hb, rfl⟩

/-- Keeps the values that stand for something. -/
def filterMap (r : Reader α) (f : α → Option β) : Reader β := fun text =>
  (r text).bind fun found => (f found.1).map fun b => (b, found.2)

theorem filterMap_eq_some_iff {r : Reader α} {f : α → Option β} {b : β} :
    r.filterMap f text = some (b, rest) ↔ ∃ a, r text = some (a, rest) ∧ f a = some b := by
  simp only [filterMap, Option.bind_eq_some_iff, Option.map_eq_some_iff, Prod.mk.injEq, Prod.exists]
  constructor
  · rintro ⟨a, mid, hread, b', hb, rfl, rfl⟩
    exact ⟨a, hread, hb⟩
  · rintro ⟨a, hread, hb⟩
    exact ⟨a, rest, hread, b, hb, rfl, rfl⟩

/-- What is spelled through other values is read through them. -/
theorem Exact.filterMap {r : Reader α} {spell : α → String} (h : r.Exact spell)
    {f : α → Option β} {g : β → α} (hf : ∀ a b, f a = some b ↔ a = g b) :
    (r.filterMap f).Exact fun b => spell (g b) := by
  intro text b rest
  rw [filterMap_eq_some_iff]
  constructor
  · rintro ⟨a, hread, ha⟩
    obtain rfl := (hf a b).mp ha
    exact (h text (g b) rest).mp hread
  · intro htext
    exact ⟨g b, (h text (g b) rest).mpr htext, (hf (g b) b).mpr rfl⟩

/-! ### Words -/

/-- Takes off a word. -/
def word (w : String) : Reader Unit := fun text =>
  (text.dropPrefix? w.toList).map fun rest => ((), rest)

theorem word_eq_some_iff {w : String} {u : Unit} :
    word w text = some (u, rest) ↔ w.toList ++ rest = text := by
  simp only [word, Option.map_eq_some_iff, List.dropPrefix?_eq_some_iff, beq_iff_eq, Prod.mk.injEq]
  constructor
  · rintro ⟨rest', ⟨_, rfl, rfl⟩, -, rfl⟩
    rfl
  · rintro rfl
    exact ⟨rest, ⟨w.toList, rfl, rfl⟩, trivial, rfl⟩

/-- Takes off the first of some words that stands there and yields what it stands for, or reads in
another way where none does. -/
def oneOf (table : List (String × α)) (otherwise : Reader α) : Reader α :=
  match table with
  | [] => otherwise
  | (w, a) :: others => fun text =>
      match word w text with
      | some (_, rest) => some (a, rest)
      | none => oneOf others otherwise text

/-- Reads nothing. -/
def nothing : Reader α := fun _ => none

/-- No word begins another one. -/
def Apart (words : List String) : Prop :=
  words.Pairwise fun w w' => ¬ w.toList <+: w'.toList ∧ ¬ w'.toList <+: w.toList

instance (words : List String) : Decidable (Apart words) :=
  inferInstanceAs (Decidable (List.Pairwise _ _))

/-- Words that are apart do not both stand at the front of a text. -/
theorem Apart.not_both {w w' : String} {words : List String} (h : Apart (w :: words))
    (hw' : w' ∈ words) (mid mid' : List Char) :
    w.toList ++ mid ≠ w'.toList ++ mid' := by
  intro heq
  have hapart := (List.pairwise_cons.mp h).1 w' hw'
  rcases List.prefix_or_prefix_of_prefix ⟨mid, rfl⟩ ⟨mid', heq.symm⟩ with hbegins | hbegins
  · exact hapart.1 hbegins
  · exact hapart.2 hbegins

/-- Where no word begins another one or what is read in the other way, their order is of no
account. -/
theorem oneOf_eq_some_iff {table : List (String × α)} {otherwise : Reader α}
    (h : Apart (table.map (·.1)))
    (hother : ∀ w ∈ table.map (·.1), ∀ mid a rest, otherwise (w.toList ++ mid) ≠ some (a, rest))
    {a : α} :
    oneOf table otherwise text = some (a, rest) ↔
      (∃ w, (w, a) ∈ table ∧ w.toList ++ rest = text) ∨ otherwise text = some (a, rest) := by
  induction table with
  | nil => simp [oneOf]
  | cons first others ih =>
      obtain ⟨w, b⟩ := first
      have hothers := ih (List.pairwise_cons.mp h).2 fun w' hw' =>
        hother w' (List.mem_cons_of_mem w hw')
      by_cases hw : ∃ mid, w.toList ++ mid = text
      -- The first word stands at the front, so no other one does and nothing is read otherwise.
      · obtain ⟨mid, rfl⟩ := hw
        have hword : word w (w.toList ++ mid) = some ((), mid) := word_eq_some_iff.mpr rfl
        simp only [oneOf, hword, Option.some.injEq, Prod.mk.injEq,
          hother w List.mem_cons_self mid a rest, or_false]
        constructor
        · rintro ⟨rfl, rfl⟩
          exact ⟨w, List.mem_cons_self, rfl⟩
        · rintro ⟨w', hmem, hmid⟩
          rcases List.mem_cons.mp hmem with heq | hmem
          · obtain ⟨rfl, rfl⟩ := Prod.mk.inj heq
            exact ⟨rfl, (List.append_cancel_left hmid).symm⟩
          · have hw' : w' ∈ others.map (·.1) := List.mem_map.mpr ⟨(w', a), hmem, rfl⟩
            exact absurd hmid.symm (h.not_both hw' mid rest)
      · have hword : word w text = none := by
          rw [Option.eq_none_iff_forall_ne_some]
          rintro ⟨u, mid⟩ hfound
          exact hw ⟨mid, word_eq_some_iff.mp hfound⟩
        simp only [oneOf, hword]
        rw [hothers]
        constructor
        · rintro (⟨w', hmem, hmid⟩ | hread)
          · exact .inl ⟨w', List.mem_cons_of_mem _ hmem, hmid⟩
          · exact .inr hread
        · rintro (⟨w', hmem, hmid⟩ | hread)
          · rcases List.mem_cons.mp hmem with heq | hmem
            · obtain ⟨rfl, rfl⟩ := Prod.mk.inj heq
              exact absurd ⟨rest, hmid⟩ hw
            · exact .inl ⟨w', hmem, hmid⟩
          · exact .inr hread

/-- Words apart of which each stands for the value that it spells are read exactly. -/
theorem exact_oneOf {table : List (String × α)} {spell : α → String}
    (h : Apart (table.map (·.1))) (hspell : ∀ w a, (w, a) ∈ table ↔ w = spell a) :
    (oneOf table nothing).Exact spell := by
  intro text a rest
  have hother : ∀ w ∈ table.map (·.1), ∀ mid b rest,
      (nothing : Reader α) (w.toList ++ mid) ≠ some (b, rest) := by
    intro w hw mid b rest hread
    cases hread
  rw [oneOf_eq_some_iff h hother]
  constructor
  · rintro (⟨w, hmem, hmid⟩ | hread)
    · rwa [(hspell w a).mp hmem] at hmid
    · cases hread
  · intro hmid
    exact .inl ⟨spell a, (hspell (spell a) a).mpr rfl, hmid⟩

/-! ### Numerals -/

/-- The digits, from zero on. -/
def alphabet : List Char :=
  ['0', '1', '2', '3', '4', '5', '6', '7', '8', '9', 'a', 'b', 'c', 'd', 'e', 'f']

/-- The value of a digit. -/
def digit? (base : Nat) (c : Char) : Option Nat :=
  (alphabet.idxOf? c).filter (· < base)

/-- The number that digits stand for, the last digit first.  No digit stands behind a zero at the
front. -/
def ofReversed? (base : Nat) : List Char → Option Nat
  | [] => none
  | [c] => digit? base c
  | c :: c' :: digits => do
      let high ← ofReversed? base (c' :: digits)
      let low ← digit? base c
      if high = 0 then none else some (base * high + low)

/-- Takes off what stands before the first occurrence of a mark, and the mark. -/
def upTo (mark : Char) : Reader (List Char)
  | [] => none
  | c :: text =>
      if c = mark then some ([], text)
      else (upTo mark text).map fun found => (c :: found.1, found.2)

/-- Takes off a numeral and the mark behind it. -/
def numeral (base : Nat) (mark : Char) : Reader Nat :=
  (upTo mark).filterMap fun digits => ofReversed? base digits.reverse

variable {base n : Nat} {mark : Char}

theorem digit?_eq_some_iff {c : Char} (hbase : base ≤ 16) :
    digit? base c = some n ↔ n < base ∧ c = n.digitChar := by
  have hspelled : ∀ n < 16, alphabet[n]? = some n.digitChar := by decide
  have hread : ∀ n < 16, alphabet.idxOf? n.digitChar = some n := by decide
  simp only [digit?, Option.filter_eq_some_iff, decide_eq_true_eq]
  constructor
  · rintro ⟨hfound, hn⟩
    obtain ⟨hlength, hc, -⟩ := List.idxOf?_eq_some_iff.mp hfound
    have hdigit := hspelled n (Nat.lt_of_lt_of_le hn hbase)
    rw [List.getElem?_eq_getElem hlength, hc] at hdigit
    exact ⟨hn, Option.some.inj hdigit⟩
  · rintro ⟨hn, rfl⟩
    exact ⟨hread n (Nat.lt_of_lt_of_le hn hbase), hn⟩

/-- Digits stand for a number just when they are its numeral. -/
theorem ofReversed?_eq_some_iff {digits : List Char} (hone : 1 < base) (hbase : base ≤ 16) :
    ofReversed? base digits = some n ↔ digits.reverse = Nat.toDigits base n := by
  -- From the last digit, since `toDigits` divides by the base and puts the remainder last.
  induction digits using ofReversed?.induct generalizing n with
  | case1 => simp [ofReversed?, Nat.toDigits_ne_nil.symm]
  | case2 c =>
      rw [ofReversed?, digit?_eq_some_iff hbase, Nat.toDigits_eq_if hone]
      by_cases hn : n < base
      · simp [hn]
      · simp [hn, List.singleton_eq_append_iff]
  | case3 c c' digits ih =>
      simp only [ofReversed?, bind, Option.bind_eq_some_iff, ih, digit?_eq_some_iff hbase]
      constructor
      · rintro ⟨high, hhigh, low, ⟨hlow, rfl⟩, hsum⟩
        -- This is where leading zeros are refused.
        by_cases hzero : high = 0
        · simp [hzero] at hsum
        · simp only [if_neg hzero, Option.some.injEq] at hsum
          rw [List.reverse_cons, hhigh, ← hsum, ← Nat.toDigits_of_lt_base hlow]
          exact Nat.toDigits_append_toDigits hone (Nat.pos_of_ne_zero hzero) hlow
      · intro hdigits
        rw [List.reverse_cons, Nat.toDigits_eq_if hone] at hdigits
        by_cases hn : n < base
        · rw [if_pos hn] at hdigits
          exact absurd (congrArg List.length hdigits) (by simp)
        · rw [if_neg hn] at hdigits
          obtain ⟨hhigh, hlow⟩ := List.append_inj' hdigits (by simp)
          have hzero : n / base ≠ 0 := by
            rw [Nat.div_ne_zero_iff]
            omega
          refine ⟨n / base, hhigh, n % base, ⟨Nat.mod_lt n (by omega), by simpa using hlow⟩, ?_⟩
          rw [if_neg hzero, Nat.div_add_mod]

/-- What stands for a number consists of digits. -/
theorem digit?_ne_none_of_mem {digits : List Char} {c : Char}
    (h : ofReversed? base digits = some n) (hc : c ∈ digits) :
    digit? base c ≠ none := by
  induction digits using ofReversed?.induct generalizing n with
  | case1 => cases hc
  | case2 last =>
      obtain rfl := List.mem_singleton.mp hc
      exact Option.ne_none_iff_exists'.mpr ⟨n, h⟩
  | case3 last c' digits ih =>
      simp only [ofReversed?, bind, Option.bind_eq_some_iff] at h
      obtain ⟨high, hhigh, low, hlow, -⟩ := h
      rcases List.mem_cons.mp hc with rfl | hmem
      · exact Option.ne_none_iff_exists'.mpr ⟨low, hlow⟩
      · exact ih hhigh hmem

theorem upTo_eq_some_iff {before : List Char} :
    upTo mark text = some (before, rest) ↔ before ++ mark :: rest = text ∧ mark ∉ before := by
  induction text generalizing before with
  | nil => simp [upTo]
  | cons c text ih =>
      by_cases hc : c = mark
      · subst hc
        simp only [upTo, if_true, Option.some.injEq, Prod.mk.injEq]
        constructor
        · rintro ⟨rfl, rfl⟩
          exact ⟨List.nil_append _, List.not_mem_nil⟩
        · rintro ⟨htext, hbefore⟩
          rcases List.append_eq_cons_iff.mp htext with ⟨rfl, hrest⟩ | ⟨before', rfl, -⟩
          · exact ⟨rfl, (List.cons.inj hrest).2.symm⟩
          · exact absurd List.mem_cons_self hbefore
      · simp only [upTo, if_neg hc, Option.map_eq_some_iff, Prod.exists, Prod.mk.injEq]
        constructor
        · rintro ⟨before', rest', hread, rfl, rfl⟩
          obtain ⟨rfl, hmark⟩ := ih.mp hread
          exact ⟨List.cons_append, List.not_mem_cons_of_ne_of_not_mem (Ne.symm hc) hmark⟩
        · rintro ⟨htext, hbefore⟩
          rcases List.append_eq_cons_iff.mp htext with ⟨rfl, hrest⟩ | ⟨before', rfl, hrest⟩
          · exact absurd (List.cons.inj hrest).1.symm hc
          · have hmark : mark ∉ before' := fun hmem => hbefore (List.mem_cons_of_mem c hmem)
            exact ⟨before', rest, ih.mpr ⟨hrest.symm, hmark⟩, rfl, rfl⟩

/-- A mark that is no digit ends a numeral. -/
theorem exact_numeral (hone : 1 < base) (hbase : base ≤ 16) (hmark : digit? base mark = none) :
    (numeral base mark).Exact fun n => String.ofList (Nat.toDigits base n ++ [mark]) := by
  intro text n rest
  rw [numeral, filterMap_eq_some_iff]
  simp only [upTo_eq_some_iff, String.toList_ofList, List.append_assoc, List.singleton_append]
  constructor
  · rintro ⟨digits, ⟨rfl, -⟩, hread⟩
    rw [ofReversed?_eq_some_iff hone hbase, List.reverse_reverse] at hread
    rw [hread]
  · intro htext
    have hread : ofReversed? base (Nat.toDigits base n).reverse = some n := by
      rw [ofReversed?_eq_some_iff hone hbase, List.reverse_reverse]
    have hfree : mark ∉ Nat.toDigits base n := fun hmem =>
      digit?_ne_none_of_mem hread (List.mem_reverse.mpr hmem) hmark
    exact ⟨Nat.toDigits base n, ⟨htext, hfree⟩, hread⟩

/-- Takes off the numeral of a number that has a fixed width, and the mark behind it. -/
def bounded (base : Nat) (mark : Char) (size : Nat) (make : (n : Nat) → n < size → α) : Reader α :=
  (numeral base mark).filterMap fun n => if h : n < size then some (make n h) else none

theorem exact_bounded {size : Nat} {make : (n : Nat) → n < size → α} {value : α → Nat}
    (hone : 1 < base) (hbase : base ≤ 16) (hmark : digit? base mark = none)
    (hvalue : ∀ n h, value (make n h) = n) (hmake : ∀ a, ∃ h, make (value a) h = a) :
    (bounded base mark size make).Exact fun a =>
      String.ofList (Nat.toDigits base (value a) ++ [mark]) := by
  apply (exact_numeral hone hbase hmark).filterMap
  intro n a
  constructor
  · intro h
    split at h
    · next hn =>
        obtain rfl := Option.some.inj h
        exact (hvalue n hn).symm
    · cases h
  · rintro rfl
    obtain ⟨h, ha⟩ := hmake a
    rw [dif_pos h, ha]

end Reader
end UsbTransfer
