import Bytecode.Proofs.Listing.Marks
import Bytecode.Proofs.Listing.NewConstant

/-!
# The layout of a listing

The offset, the source line and the operand stand at the right of fields of four
characters, and each of them is shown in full: a field grows with a text that is too
wide for it.  While the offset and the source line fit, the words begin behind ten
characters, and so the operand and the constant stand at the same place in all lines.

* `Listing.ShownAtRight` — how a text is shown in a field.
* `Listing.LaidOut` — what a line is made up of, however wide its fields are.
* `Listing.FitsColumn`, `Listing.length_columns` — the columns of source lines that fit.
* `Listing.Aligned`, `Listing.aligned_line` — the places of the words and the operand.
* `Listing.laidOut_line` — every line is laid out, and short listings are aligned.
-/

namespace Bytecode.Listing

open Text

/-! ## Fields -/

/-- A text is shown in full at the right of a field, which is no wider than asked unless the text
is. -/
structure ShownAtRight (filler : Char) (width : Nat) (t field : Text) : Prop where
  full : ∃ n, field = List.replicate n filler ++ t
  length : field.length = max width t.length

theorem shownAtRight_padLeft (filler : Char) (width : Nat) (t : Text) :
    ShownAtRight filler width t (padLeft filler width t) :=
  ⟨⟨_, rfl⟩, length_padLeft filler width t⟩

theorem length_padLeft_of_le (filler : Char) {width : Nat} {t : Text} (h : t.length ≤ width) :
    (padLeft filler width t).length = width := by
  rw [length_padLeft, Nat.max_eq_left h]

theorem length_decimal_le {n width : Nat} (hpos : 0 < width) (h : n < 10 ^ width) :
    (decimal n).length ≤ width :=
  (Nat.length_toDigits_le_iff (by decide) hpos).2 h

/-- A sign takes the place of a digit. -/
theorem length_signedDecimal_le {i : Int} (hlow : -999 ≤ i) (hhigh : i ≤ 9999) :
    (signedDecimal i).length ≤ 4 := by
  unfold signedDecimal
  split
  · rw [List.length_cons]
    exact Nat.succ_le_succ (length_decimal_le (by decide) (by omega))
  · exact length_decimal_le (by decide) (by omega)

/-! ## What a line is made up of -/

section Lines

variable (c : Chunk) (offset : Nat)

/-- What a line is made up of, however wide its fields are. -/
structure LaidOut : Prop where
  /-- No blanks are cut off the end of the line, as there are none. -/
  untrimmed : trimEnd (offsetColumn offset ++ lineColumn c offset ++ body c (found c offset)) =
    offsetColumn offset ++ lineColumn c offset ++ body c (found c offset)
  written : textAt c offset = line c offset ++ ['\n']
  last : ∃ ch, (line c offset).getLast? = some ch ∧ isBlank ch = false
  /-- The offset and what is shown of the source line stand in front, each in full. -/
  fields : ∃ offsetField lineField, ShownAtRight '0' 4 (decimal offset) offsetField ∧
    ShownAtRight ' ' 4 (mark c offset).text lineField ∧
    line c offset = offsetField ++ ' ' :: lineField ++ ' ' :: body c (found c offset)
  /-- So does the operand, behind the mnemonic. -/
  operand : ∀ id, found c offset = .ok (.constant id) →
    ∃ field, ShownAtRight ' ' 4 (decimal id.toNat) field ∧
      body c (found c offset) =
        "OP_CONSTANT      ".toList ++ field ++ ' ' :: constantText c id

theorem laidOut : LaidOut c offset := by
  constructor
  case untrimmed => exact line_eq c offset
  case written => exact textAt_eq c offset
  case last =>
    obtain ⟨ch, hlast, hch⟩ := getLast?_body c (found c offset)
    refine ⟨ch, ?_, hch⟩
    rw [line_eq, List.getLast?_append, hlast]
    rfl
  case fields =>
    refine ⟨_, _, shownAtRight_padLeft _ _ _, shownAtRight_padLeft _ _ _, ?_⟩
    rw [line_eq, columns, offsetColumn, lineColumn_eq]
    simp only [List.append_assoc, List.cons_append, List.nil_append]
  case operand =>
    intro id hid
    refine ⟨_, shownAtRight_padLeft _ _ _, ?_⟩
    rw [hid, body_constant, List.append_assoc]

end Lines

/-! ## Columns that line up -/

/-- The column of the source line holds a number that fits, or one of the signs. -/
def FitsColumn (c : Chunk) (offset : Nat) : Prop :=
  (∃ line, c.lineAt offset = some line ∧ -999 ≤ line.toInt ∧ line.toInt ≤ 9999) ∨
    mark c offset = .bar ∨ mark c offset = .unknown

section Columns

variable {c : Chunk} {offset : Nat}

theorem length_text_mark_le (h : FitsColumn c offset) : (mark c offset).text.length ≤ 4 := by
  rcases h with ⟨line, hline, hlow, hhigh⟩ | hbar | hunknown
  · by_cases hbefore : lineBefore c offset = some line
    · rw [mark_of_same hline hbefore]
      decide
    · rw [mark_of_change hline hbefore]
      exact length_signedDecimal_le hlow hhigh
  · rw [hbar]
    decide
  · rw [hunknown]
    decide

theorem length_columns (hoffset : offset < 10000) (h : FitsColumn c offset) :
    (columns c offset).length = 10 := by
  have hdecimal : (decimal offset).length ≤ 4 := length_decimal_le (by decide) hoffset
  rw [columns, offsetColumn, lineColumn_eq, List.length_append, List.length_append,
    List.length_append, length_padLeft_of_le '0' hdecimal,
    length_padLeft_of_le ' ' (length_text_mark_le h)]
  rfl

/-- The places of the words and of the operand in a line whose columns fit. -/
structure Aligned (c : Chunk) (offset : Nat) (l : Text) : Prop where
  columns : l.take 10 = columns c offset
  words : l.drop 10 = body c (found c offset)
  first : ∃ ch, l[10]? = some ch ∧ ch ≠ ' '
  operand : ∀ id, found c offset = .ok (.constant id) →
    ShownAtRight ' ' 4 (decimal id.toNat) ((l.drop 27).take 4) ∧ l[31]? = some ' '
  /-- What is shown of the constant is the rest of the line. -/
  constant : ∀ id, found c offset = .ok (.constant id) →
    (∀ v, c.lookup id = some v → l.drop 32 = '\'' :: v.text ++ ['\'']) ∧
      (c.lookup id = none → l.drop 32 = "<invalid constant>".toList)

/-- Behind its columns, a line holds the words. -/
theorem drop_line (hoffset : offset < 10000) (h : FitsColumn c offset) (k : Nat) :
    (line c offset).drop (10 + k) = (body c (found c offset)).drop k := by
  rw [← List.drop_drop, line_eq, List.drop_left' (length_columns hoffset h)]

/-- Behind the mnemonic stands the operand, and behind it the constant. -/
theorem drop_body_constant (c : Chunk) (id : UInt8) :
    (body c (.ok (.constant id))).drop 17 =
      padLeft ' ' 4 (decimal id.toNat) ++ ' ' :: constantText c id := by
  rw [body_constant]
  exact List.drop_left' (by decide)

/-- The operand is a byte, so its field does not grow. -/
theorem length_operandField (id : UInt8) : (padLeft ' ' 4 (decimal id.toNat)).length = 4 := by
  have hlt := id.toNat_lt
  exact length_padLeft_of_le ' ' (length_decimal_le (by decide) (by omega))

theorem drop_body_operand (c : Chunk) (id : UInt8) :
    (body c (.ok (.constant id))).drop 21 = ' ' :: constantText c id := by
  show (body c (.ok (.constant id))).drop (17 + 4) = _
  rw [← List.drop_drop, drop_body_constant]
  exact List.drop_left' (length_operandField id)

theorem aligned_line (hoffset : offset < 10000) (h : FitsColumn c offset) :
    Aligned c offset (line c offset) := by
  have hdrop := drop_line hoffset h
  have hwords : (line c offset).drop 10 = body c (found c offset) := hdrop 0
  constructor
  case columns =>
    rw [line_eq]
    exact List.take_left' (length_columns hoffset h)
  case words => exact hwords
  case first =>
    obtain ⟨ch, rest, hbody, hch⟩ := exists_body_eq_cons c (found c offset)
    refine ⟨ch, ?_, ?_⟩
    · rw [← List.head?_drop, hwords, hbody]
      rfl
    · rintro rfl
      exact absurd hch (by decide)
  case operand =>
    intro id hid
    have hfield := hdrop 17
    have hbehind := hdrop 21
    rw [hid, drop_body_constant] at hfield
    rw [hid, drop_body_operand] at hbehind
    constructor
    · rw [hfield, List.take_left' (length_operandField id)]
      exact shownAtRight_padLeft _ _ _
    · rw [← List.head?_drop, hbehind]
      rfl
  case constant =>
    intro id hid
    have hconstant : (line c offset).drop 32 = constantText c id := by
      rw [hdrop (21 + 1), hid, ← List.drop_drop, drop_body_operand]
      rfl
    rw [hconstant]
    exact ⟨fun _ => constantText_of_some, constantText_of_none⟩

end Columns

/-! ## Listings -/

/-- **The layout of a listing**: at every offset into a chunk and beyond it, whether the chunk is
reachable or not, a line is made up of fields that show their texts in full and does not end in a
blank; and where the columns fit, its words and its operand have fixed places, as in all such lines
of a listing of ten thousand bytes at most. -/
theorem laidOut_line :
    (∀ c offset, LaidOut c offset) ∧
    (∀ c offset, offset < 10000 → FitsColumn c offset → Aligned c offset (line c offset)) ∧
    ∀ c : Chunk, c.size ≤ 10000 →
      (∀ name, text ⟨c, name⟩ = header name ++ ofLines (c.entries.map fun e => line c e.offset)) ∧
      ∀ e ∈ c.entries, FitsColumn c e.offset → Aligned c e.offset (line c e.offset) := by
  refine ⟨laidOut, fun c offset => aligned_line, fun c hc => ⟨?_, ?_⟩⟩
  · intro name
    exact text_eq (Nat.lt_of_le_of_lt hc (by decide)) name
  · intro e he hfits
    exact aligned_line (Nat.lt_of_lt_of_le (offset_lt_size he) hc) hfits

/-- A constant that is there and one that is missing, on source lines that just fit. -/
def narrow : Chunk :=
  Chunk.empty.after [.addConstant ⟨0x3ff8000000000000⟩, .writeInstruction (.constant 0) 9999,
    .writeInstruction (.constant 200) (-999)]

theorem entries_narrow :
    narrow.entries = [⟨0, .ok (.constant 0)⟩, ⟨2, .ok (.constant 200)⟩] := by
  have hcode : narrow.code.toList = [0, 0, 0, 200] := rfl
  have hrest : Instruction.entriesFrom 2 [0, 200] = [⟨2, .ok (.constant 200)⟩] := by
    rw [Instruction.entriesFrom_cons]
    exact congrArg (List.cons _) (Instruction.entriesFrom_nil _)
  rw [Chunk.entries, hcode, Instruction.entries, Instruction.entriesFrom_cons]
  exact congrArg (List.cons _) hrest

/-- Both constants are shown at the same place, and no line ends in a blank, even beyond the
code. -/
theorem laidOut_line_of_narrow :
    narrow.size ≤ 10000 ∧ FitsColumn narrow 0 ∧ FitsColumn narrow 2 ∧
      (line narrow 0).drop 32 = "'1.5'".toList ∧
      (line narrow 2).drop 32 = "<invalid constant>".toList ∧
      ∃ ch, (line narrow 4).getLast? = some ch ∧ isBlank ch = false := by
  obtain ⟨hlaidOut, hplaces, hlisting⟩ := laidOut_line
  have hsize : narrow.size ≤ 10000 := by decide
  have hfirst : FitsColumn narrow 0 := .inl ⟨9999, by decide, by decide, by decide⟩
  have hsecond : FitsColumn narrow 2 := .inl ⟨-999, by decide, by decide, by decide⟩
  refine ⟨hsize, hfirst, hsecond, ?_, ?_, (hlaidOut narrow 4).last⟩
  · have haligned := hplaces narrow 0 (by decide) hfirst
    rw [(haligned.constant 0 (by decide)).1 _ rfl]
    decide +kernel
  · have haligned := (hlisting narrow hsize).2 ⟨2, .ok (.constant 200)⟩
      (by simp [entries_narrow]) hsecond
    exact (haligned.constant 200 (by decide)).2 (by decide)

end Bytecode.Listing
