import UsbTransfer.Proofs.Readers
import UsbTransfer.State

/-!
# Lines of logs read back

The line that stands for a batch in logs puts its target, its kind of transfer, both lengths and its
status one behind the other.  Each of them has an exact reader: no name of a direction or of a kind
of transfer begins another one, no sentence of a failure begins another one or the word for success,
and the mark behind a number is no digit.  So the line is read back as what it tells, and two
batches have the same line just when they agree on that.
-/

namespace UsbTransfer

namespace Direction

/-- Reads the name of a direction. -/
def reader : Reader Direction :=
  .oneOf [("Out", .outbound), ("In", .inbound), ("Both", .both)] .nothing

theorem exact_reader : reader.Exact word := by
  apply Reader.exact_oneOf
  · decide
  · intro w d
    cases d <;> simp [word]

end Direction

namespace TransferType

/-- Reads the name of a kind of transfer. -/
def reader : Reader TransferType :=
  .oneOf [("Control", .control), ("Isochronous", .isochronous), ("Bulk", .bulk),
    ("Interrupt", .interrupt)] .nothing

theorem exact_reader : reader.Exact word := by
  apply Reader.exact_oneOf
  · decide
  · intro w t
    cases t <;> simp [word]

end TransferType

namespace Target

/-- Reads one of the numbers of a target and the mark behind it. -/
def number (mark : Char) : Reader UInt8 :=
  .bounded 10 mark UInt8.size UInt8.ofNatLT

theorem exact_number {mark : Char} (hmark : Reader.digit? 10 mark = none) :
    (number mark).Exact fun n => String.ofList (Nat.toDigits 10 n.toNat ++ [mark]) := by
  apply Reader.exact_bounded (by decide) (by decide) hmark
  · intro n h
    exact UInt8.toNat_ofNatLT
  · intro n
    exact ⟨n.toNat_lt, n.ofNatLT_toNat⟩

/-- Reads a target. -/
def reader : Reader Target := do
  let address ← number ':'
  let endpoint ← number ' '
  let direction ← Direction.reader
  return ⟨address, endpoint, direction⟩

theorem exact_reader : reader.Exact text := by
  intro line t rest
  have haddress : (number ':').Exact _ := exact_number (by decide)
  have hendpoint : (number ' ').Exact _ := exact_number (by decide)
  simp only [reader, Reader.bind_eq_some_iff, Reader.pure_eq_some_iff, haddress _, hendpoint _,
    Direction.exact_reader _]
  constructor
  · rintro ⟨address, _, rfl, endpoint, _, rfl, direction, _, rfl, rfl, rfl⟩
    simp [text]
  · rintro rfl
    refine ⟨t.address, _, ?_, t.endpoint, _, rfl, t.direction, rest, rfl, rfl, rfl⟩
    simp [text]

end Target

namespace TransferError

/-- Reads a completion code and the bracket behind it. -/
def code : Reader UInt32 :=
  .bounded 16 ')' UInt32.size UInt32.ofNatLT

theorem exact_code :
    code.Exact fun c => String.ofList (Nat.toDigits 16 c.toNat ++ [')']) := by
  apply Reader.exact_bounded (by decide) (by decide) (by decide)
  · intro n h
    exact UInt32.toNat_ofNatLT
  · intro c
    exact ⟨c.toNat_lt, c.ofNatLT_toNat⟩

/-- The sentences without a number. -/
def sentences : List (String × TransferError) :=
  [("transfer was cancelled", .cancelled), ("endpoint stalled", .stall),
    ("device disconnected", .disconnected),
    ("hardware fault or protocol violation", .fault),
    ("invalid or unsupported argument", .invalidArgument)]

/-- Reads the sentence of a completion code. -/
def coded : Reader TransferError := do
  Reader.word "unknown error (code 0x"
  return unknown (← code)

/-- Reads the sentence of a failure. -/
def reader : Reader TransferError :=
  .oneOf sentences coded

theorem mem_sentences_iff {w : String} {e : TransferError} :
    (w, e) ∈ sentences ↔ w = e.text ∧ ∀ c, e ≠ unknown c := by
  cases e <;> simp [sentences] <;> rfl

-- By definition and not by `simp`, which takes very long to derive the equations of `text`.
theorem text_unknown (c : UInt32) :
    (unknown c).text = "unknown error (code 0x" ++ Hex.ofNat c.toNat ++ ")" :=
  rfl

theorem toList_text_unknown (c : UInt32) :
    (unknown c).text.toList =
      "unknown error (code 0x".toList ++
        (String.ofList (Nat.toDigits 16 c.toNat ++ [')'])).toList := by
  simp [text_unknown, Hex.ofNat]

theorem coded_eq_some_iff {line rest : List Char} {e : TransferError} :
    coded line = some (e, rest) ↔ ∃ c, e = unknown c ∧ e.text.toList ++ rest = line := by
  simp only [coded, Reader.bind_eq_some_iff, Reader.word_eq_some_iff, exact_code _,
    Reader.pure_eq_some_iff]
  constructor
  · rintro ⟨_, _, rfl, c, _, rfl, rfl, rfl⟩
    refine ⟨c, rfl, ?_⟩
    rw [toList_text_unknown, List.append_assoc]
  · rintro ⟨c, rfl, rfl⟩
    rw [toList_text_unknown, List.append_assoc]
    exact ⟨(), _, rfl, c, _, rfl, rfl, rfl⟩

theorem apart_sentences : Reader.Apart (sentences.map (·.1)) := by
  simp [Reader.Apart, sentences]

/-- No sentence without a number begins like that of a completion code. -/
theorem coded_ne_some {w : String} (hw : w ∈ sentences.map (·.1)) (mid : List Char)
    (e : TransferError) (rest : List Char) :
    coded (w.toList ++ mid) ≠ some (e, rest) := by
  intro hread
  obtain ⟨c, rfl, hmid⟩ := coded_eq_some_iff.mp hread
  rw [toList_text_unknown] at hmid
  simp only [sentences, List.map_cons, List.map_nil, List.mem_cons, List.not_mem_nil,
    or_false] at hw
  -- The first letters differ.
  rcases hw with rfl | rfl | rfl | rfl | rfl <;> simp at hmid

theorem exact_reader : reader.Exact text := by
  intro line e rest
  rw [reader, Reader.oneOf_eq_some_iff apart_sentences fun w => coded_ne_some, coded_eq_some_iff]
  constructor
  · rintro (⟨w, hmem, hline⟩ | ⟨c, -, hline⟩)
    · rwa [(mem_sentences_iff.mp hmem).1] at hline
    · exact hline
  · intro hline
    by_cases hcode : ∃ c, e = unknown c
    · obtain ⟨c, rfl⟩ := hcode
      exact .inr ⟨c, rfl, hline⟩
    · have hmem : (e.text, e) ∈ sentences :=
        mem_sentences_iff.mpr ⟨rfl, fun c hc => hcode ⟨c, hc⟩⟩
      exact .inl ⟨e.text, hmem, hline⟩

/-- No sentence of a failure has the first letter of the word for success. -/
theorem toList_text_eq_cons (e : TransferError) : ∃ c cs, e.text.toList = c :: cs ∧ c ≠ 'o' := by
  cases e with
  | unknown c => exact ⟨'u', _, toList_text_unknown c, by decide⟩
  | _ => exact ⟨_, _, rfl, by decide⟩

end TransferError

namespace Status

/-- Reads a status. -/
def reader : Reader Status :=
  .oneOf [("ok", .ok)] (failed <$> TransferError.reader)

/-- No failure begins with the word for success. -/
theorem failed_ne_some {w : String} (hw : w ∈ [("ok", Status.ok)].map (·.1)) (mid : List Char)
    (s : Status) (rest : List Char) :
    (failed <$> TransferError.reader) (w.toList ++ mid) ≠ some (s, rest) := by
  intro hread
  obtain ⟨e, he, rfl⟩ := Reader.map_eq_some_iff.mp hread
  obtain rfl := List.mem_singleton.mp hw
  have hmid := (TransferError.exact_reader _ e rest).mp he
  obtain ⟨c, cs, htext, hc⟩ := e.toList_text_eq_cons
  rw [htext] at hmid
  exact hc (List.cons.inj hmid).1

theorem exact_reader : reader.Exact text := by
  intro line s rest
  rw [reader, Reader.oneOf_eq_some_iff (by decide) fun w => failed_ne_some, Reader.map_eq_some_iff]
  simp only [TransferError.exact_reader _]
  cases s with
  | ok => simp [text]
  | failed e => simp [text]

end Status

namespace Summary

/-- Reads the line that stands for a batch in logs. -/
def reader : Reader Summary := do
  Reader.word "["
  let target ← Target.reader
  Reader.word " "
  let transferType ← TransferType.reader
  Reader.word "] "
  let actual ← Reader.numeral 10 '/'
  let requested ← Reader.numeral 10 'B'
  Reader.word " "
  let status ← Status.reader
  return ⟨target, transferType, actual, requested, status⟩

theorem exact_reader : reader.Exact text := by
  intro line s rest
  have hactual : (Reader.numeral 10 '/').Exact _ :=
    Reader.exact_numeral (by decide) (by decide) (by decide)
  have hrequested : (Reader.numeral 10 'B').Exact _ :=
    Reader.exact_numeral (by decide) (by decide) (by decide)
  simp only [reader, Reader.bind_eq_some_iff, Reader.pure_eq_some_iff, Reader.word_eq_some_iff,
    hactual _, hrequested _, Target.exact_reader _, TransferType.exact_reader _,
    Status.exact_reader _]
  constructor
  · rintro ⟨_, _, rfl, target, _, rfl, _, _, rfl, transferType, _, rfl, _, _, rfl, actual, _, rfl,
      requested, _, rfl, _, _, rfl, status, _, rfl, rfl, rfl⟩
    simp [text]
  · rintro rfl
    refine ⟨(), _, ?_, s.target, _, rfl, (), _, rfl, s.transferType, _, rfl, (), _, rfl,
      s.actual, _, rfl, s.requested, _, rfl, (), _, rfl, s.status, rest, rfl, rfl, rfl⟩
    simp [text]

end Summary

/-- Two transfers agree on all that the line of a batch tells. -/
structure Transfer.Agrees (t t' : Transfer) : Prop where
  address : t.target.address = t'.target.address
  endpoint : t.target.endpoint = t'.target.endpoint
  direction : t.target.direction = t'.target.direction
  transferType : t.descriptor.transferType = t'.descriptor.transferType
  actual : t.actual = t'.actual
  requested : t.requested = t'.requested
  status : t.status = t'.status

theorem Transfer.summary_eq_iff {t t' : Transfer} : t.summary = t'.summary ↔ t.Agrees t' := by
  rw [summary, summary, Summary.mk.injEq, Target.mk.injEq]
  constructor
  · rintro ⟨⟨haddress, hendpoint, hdirection⟩, htype, hactual, hrequested, hstatus⟩
    exact ⟨haddress, hendpoint, hdirection, htype, hactual, hrequested, hstatus⟩
  · rintro ⟨haddress, hendpoint, hdirection, htype, hactual, hrequested, hstatus⟩
    exact ⟨⟨haddress, hendpoint, hdirection⟩, htype, hactual, hrequested, hstatus⟩

/-- Two batches, in whatever states they are, have the same line just when they agree on their
targets, kinds of transfer, lengths and statuses, which are read back from the line.  The texts of
targets and of failures are legible on their own. -/
theorem State.lines_identify :
    (∀ (s s' : State) (b b' : Key Batch),
        (s.transferOf b).summary.text = (s'.transferOf b').summary.text ↔
          (s.transferOf b).Agrees (s'.transferOf b')) ∧
      (∀ (s : State) (b : Key Batch),
        Summary.reader.whole? (s.transferOf b).summary.text =
          some
            { target := (s.transferOf b).target
              transferType := (s.transferOf b).descriptor.transferType
              actual := (s.transferOf b).actual
              requested := (s.transferOf b).requested
              status := (s.transferOf b).status }) ∧
      Legible Summary.text Summary.reader.whole? ∧
      Legible Target.text Target.reader.whole? ∧
      Legible TransferError.text TransferError.reader.whole? := by
  have hline : Legible Summary.text Summary.reader.whole? := Summary.exact_reader.legible
  refine ⟨?_, ?_, hline, Target.exact_reader.legible, TransferError.exact_reader.legible⟩
  · intro s s' b b'
    rw [hline.distinct, Transfer.summary_eq_iff]
  · intro s b
    exact (hline.read _ _).mpr rfl

example : Summary.reader.whole? "[3:1 In Bulk] 10/64B unknown error (code 0xd)" =
    some ⟨⟨3, 1, .inbound⟩, .bulk, 10, 64, .failed (.unknown 13)⟩ := by
  decide +kernel

example : Summary.reader.whole? "[3:1 In Bulk] 010/64B ok" = none := by
  decide +kernel

end UsbTransfer
