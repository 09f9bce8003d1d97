import Bytecode.Listing
import Bytecode.Proofs.Text.Characters
import Mathlib.Data.List.Basic

/-!
# The line for an offset

A line is made up of two columns, for the offset and for the source line, and of
words for what is found there.  The columns hold digits, blanks and a few signs;
the words begin with a letter or a bracket and do not end in a blank.  So nothing
is cut off the end of a line, and the words can be told from the columns.

* `Listing.lineColumn_congr`, `Listing.body_congr` — what a line looks at.
* `Listing.line_eq` — a line is its columns followed by its words.
* `Listing.isScript_of_mem_body` — the characters of the words.
* `Listing.newline_not_mem_line` — a line has no newline of its own.
* `Listing.body_eq_dropWhile_line` — the words begin at the first character that
  stands in no column.
-/

namespace Bytecode.Listing

open Text

/-! ## The columns -/

/-- The columns of the offset and of the source line. -/
def columns (c : Chunk) (offset : Nat) : Text := offsetColumn offset ++ lineColumn c offset

/-- Whether a character can stand in the columns. -/
def isMargin (c : Char) : Bool := c.isDigit || [' ', '-', '|', '?'].contains c

theorem isMargin_of_isDigit {c : Char} (h : c.isDigit = true) : isMargin c = true := by
  rw [isMargin, h, Bool.true_or]

theorem isMargin_of_mem_offsetColumn {offset : Nat} {c : Char} (h : c ∈ offsetColumn offset) :
    isMargin c = true := by
  rcases List.mem_append.1 h with h | h
  · rcases mem_padLeft h with rfl | h
    · decide
    · exact isMargin_of_isDigit (isDigit_of_mem_decimal h)
  · rw [List.mem_singleton.1 h]
    decide

theorem isMargin_of_mem_lineColumn {c : Chunk} {offset : Nat} {ch : Char}
    (h : ch ∈ lineColumn c offset) : isMargin ch = true := by
  have hnone : ∀ d ∈ "   ? ".toList, isMargin d = true := List.all_eq_true.1 (by decide)
  have hsame : ∀ d ∈ "   | ".toList, isMargin d = true := List.all_eq_true.1 (by decide)
  unfold lineColumn at h
  dsimp only at h
  generalize (if offset = 0 then none else c.lineAt (offset - 1)) = before at h
  generalize c.lineAt offset = shown at h
  cases shown with
  | none => exact hnone ch h
  | some line =>
    dsimp only at h
    split at h
    · exact hsame ch h
    · rcases List.mem_append.1 h with h | h
      · rcases mem_padLeft h with rfl | h
        · decide
        · rcases mem_signedDecimal h with rfl | h
          · decide
          · exact isMargin_of_isDigit h
      · rw [List.mem_singleton.1 h]
        decide

/-- The columns hold digits, blanks and a few signs. -/
theorem isMargin_of_mem_columns {c : Chunk} {offset : Nat} {ch : Char}
    (h : ch ∈ columns c offset) : isMargin ch = true := by
  rcases List.mem_append.1 h with h | h
  · exact isMargin_of_mem_offsetColumn h
  · exact isMargin_of_mem_lineColumn h

/-! ## The words -/

section Words

variable (c : Chunk)

theorem body_constant (id : UInt8) :
    body c (.ok (.constant id)) =
      "OP_CONSTANT      ".toList ++
        (padLeft ' ' 4 (decimal id.toNat) ++ ' ' :: constantText c id) := by
  rfl

theorem body_ret : body c (.ok .ret) = "OP_RETURN".toList := by
  rfl

theorem body_unknownOpcode (b : UInt8) :
    body c (.error (.unknownOpcode b)) = "Unknown opcode ".toList ++ decimal b.toNat := by
  rfl

theorem body_missingOperand_constant :
    body c (.error (.missingOperand .constant)) = "OP_CONSTANT      <missing operand>".toList := by
  rfl

theorem body_missingOperand_ret :
    body c (.error (.missingOperand .ret)) = "OP_RETURN        <missing operand>".toList := by
  rfl

theorem body_endOfCode :
    body c (.error .endOfCode) = "<decode error: unexpected end of bytecode>".toList := by
  rfl

/-- The words begin with a character that stands in no column. -/
theorem exists_body_eq_cons (d : Decoded) :
    ∃ ch rest, body c d = ch :: rest ∧ isMargin ch = false := by
  match d with
  | .ok (.constant id) => exact ⟨'O', _, body_constant c id, by decide⟩
  | .ok .ret => exact ⟨'O', _, body_ret c, by decide⟩
  | .error (.unknownOpcode b) => exact ⟨'U', _, body_unknownOpcode c b, by decide⟩
  | .error (.missingOperand .constant) => exact ⟨'O', _, body_missingOperand_constant c, by decide⟩
  | .error (.missingOperand .ret) => exact ⟨'O', _, body_missingOperand_ret c, by decide⟩
  | .error .endOfCode => exact ⟨'<', _, body_endOfCode c, by decide⟩

theorem getLast?_constantText (id : UInt8) :
    ∃ ch, (constantText c id).getLast? = some ch ∧ isBlank ch = false := by
  unfold constantText
  split
  · exact ⟨'\'', List.getLast?_concat, by decide⟩
  · exact ⟨'>', by decide, by decide⟩

/-- The words do not end in a blank. -/
theorem getLast?_body (d : Decoded) :
    ∃ ch, (body c d).getLast? = some ch ∧ isBlank ch = false := by
  match d with
  | .ok (.constant id) =>
    obtain ⟨ch, hlast, hch⟩ := getLast?_constantText c id
    refine ⟨ch, ?_, hch⟩
    rw [body_constant, List.getLast?_append, List.getLast?_append, List.getLast?_cons, hlast]
    rfl
  | .ok .ret =>
    rw [body_ret]
    exact ⟨'N', by decide, by decide⟩
  | .error (.unknownOpcode b) =>
    obtain ⟨ch, hlast, hch⟩ := getLast?_decimal b.toNat
    refine ⟨ch, ?_, hch⟩
    rw [body_unknownOpcode, List.getLast?_append, hlast]
    rfl
  | .error (.missingOperand .constant) =>
    rw [body_missingOperand_constant]
    exact ⟨'>', by decide, by decide⟩
  | .error (.missingOperand .ret) =>
    rw [body_missingOperand_ret]
    exact ⟨'>', by decide, by decide⟩
  | .error .endOfCode =>
    rw [body_endOfCode]
    exact ⟨'>', by decide, by decide⟩

/-- Whether a character can stand in the words for what is found inside the code. -/
def isScript (ch : Char) : Bool :=
  ch.isAlphanum || [' ', '_', '<', '>', '\'', '-', '.'].contains ch

theorem isScript_of_isFigure {ch : Char} (h : isFigure ch = true) : isScript ch = true := by
  by_cases hdigit : ch.isDigit = true
  · simp [isScript, Char.isAlphanum, hdigit]
  · simp [isFigure, hdigit] at h
    rcases h with rfl | rfl | rfl | rfl | rfl | rfl | rfl <;> decide

variable {c} in
theorem isScript_of_mem_constantText {id : UInt8} {ch : Char} (h : ch ∈ constantText c id) :
    isScript ch = true := by
  have hinvalid : ∀ d ∈ "<invalid constant>".toList, isScript d = true :=
    List.all_eq_true.1 (by decide)
  unfold constantText at h
  split at h
  · rcases List.mem_append.1 h with h | h
    · rcases List.mem_cons.1 h with rfl | h
      · decide
      · exact isScript_of_isFigure (Value.isFigure_of_mem_text h)
    · rw [List.mem_singleton.1 h]
      decide
  · exact hinvalid ch h

variable {c} in
/-- The words for what is found inside the code are written in few characters. -/
theorem isScript_of_mem_body {d : Decoded} (hd : d ≠ .error .endOfCode) {ch : Char}
    (h : ch ∈ body c d) : isScript ch = true := by
  have hfixed {t : Text} (ht : t.all isScript = true) (h : ch ∈ t) : isScript ch = true :=
    List.all_eq_true.1 ht ch h
  match d, hd with
  | .ok (.constant id), _ =>
    rw [body_constant] at h
    rcases List.mem_append.1 h with h | h
    · exact hfixed (by decide) h
    · rcases List.mem_append.1 h with h | h
      · rcases mem_padLeft h with rfl | h
        · decide
        · exact isScript_of_isFigure (isFigure_of_mem_decimal h)
      · rcases List.mem_cons.1 h with rfl | h
        · decide
        · exact isScript_of_mem_constantText h
  | .ok .ret, _ =>
    rw [body_ret] at h
    exact hfixed (by decide) h
  | .error (.unknownOpcode b), _ =>
    rw [body_unknownOpcode] at h
    rcases List.mem_append.1 h with h | h
    · exact hfixed (by decide) h
    · exact isScript_of_isFigure (isFigure_of_mem_decimal h)
  | .error (.missingOperand .constant), _ =>
    rw [body_missingOperand_constant] at h
    exact hfixed (by decide) h
  | .error (.missingOperand .ret), _ =>
    rw [body_missingOperand_ret] at h
    exact hfixed (by decide) h

theorem newline_not_mem_body (d : Decoded) : '\n' ∉ body c d := by
  by_cases hd : d = .error .endOfCode
  · rw [hd, body_endOfCode]
    decide
  · intro h
    exact absurd (isScript_of_mem_body hd h) (by decide)

end Words

/-! ## What a line looks at -/

/-- The column of the source line looks at the lines of the offset and of the one before it. -/
theorem lineColumn_congr {c d : Chunk} {offset : Nat} (h : d.lineAt offset = c.lineAt offset)
    (hbefore : d.lineAt (offset - 1) = c.lineAt (offset - 1)) :
    lineColumn d offset = lineColumn c offset := by
  rw [lineColumn, lineColumn, h, hbefore]

/-- The words look at one constant at most: the one that is named. -/
theorem body_congr {c d : Chunk} {r : Decoded}
    (h : ∀ id, r = .ok (.constant id) → d.lookup id = c.lookup id) : body d r = body c r := by
  match r with
  | .ok (.constant id) => rw [body_constant, body_constant, constantText, constantText, h id rfl]
  | .ok .ret => rfl
  | .error (.unknownOpcode _) => rfl
  | .error (.missingOperand _) => rfl
  | .error .endOfCode => rfl

/-! ## The whole line -/

/-- Nothing is cut off the end of a line. -/
theorem line_eq (c : Chunk) (offset : Nat) :
    line c offset = columns c offset ++ body c (found c offset) := by
  obtain ⟨ch, hlast, hch⟩ := getLast?_body c (found c offset)
  refine trimEnd_eq_self ?_
  intro d hd
  rw [List.getLast?_append, hlast] at hd
  cases hd
  exact hch

/-- A line has no newline of its own. -/
theorem newline_not_mem_line (c : Chunk) (offset : Nat) : '\n' ∉ line c offset := by
  rw [line_eq, List.mem_append, not_or]
  constructor
  · intro h
    exact absurd (isMargin_of_mem_columns h) (by decide)
  · exact newline_not_mem_body c (found c offset)

/-- The words begin at the first character that stands in no column. -/
theorem body_eq_dropWhile_line (c : Chunk) (offset : Nat) :
    body c (found c offset) = (line c offset).dropWhile isMargin := by
  obtain ⟨ch, rest, hbody, hch⟩ := exists_body_eq_cons c (found c offset)
  rw [line_eq, hbody]
  exact (dropWhile_run (fun _ h => isMargin_of_mem_columns h) (by simp [hch])).symm

end Bytecode.Listing
