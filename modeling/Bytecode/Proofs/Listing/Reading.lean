import Bytecode.Proofs.Listing.Traversal
import Mathlib.Data.List.TakeWhile

/-!
# A listing can be read back

The words of a line tell what was found at its offset and what is shown of the
constant that an instruction names.  So the lines of a listing give back the
code, byte for byte, and the constants as far as they are shown.

* `Listing.readWords`, `Listing.readLine` — reading the words of a line, and a
  line behind its columns.
* `Listing.readWords_body`, `Listing.readLine_line` — they give back what was
  written.
* `Listing.flatMap_readLine` — the lines of a listing give back the code.
* `Listing.code_eq_of_text_eq` — chunks with one listing have one code, and show
  the same constants.
-/

namespace Bytecode.Listing

open Text

/-! ## Reading the words of a line -/

/-- What is shown of the constant that an instruction names. -/
def shown (c : Chunk) : Decoded → Text
  | .ok (.constant id) => constantText c id
  | _ => []

/-- Reads a numeral, and gives what stands behind the character that ends it. -/
def readNumeral (t : Text) : Nat × Text :=
  (Nat.ofDigitChars 10 (t.takeWhile Char.isDigit) 0, (t.dropWhile Char.isDigit).drop 1)

/-- Reads the words of a line: what was found, and what is shown of a constant. -/
def readWords (t : Text) : Decoded × Text :=
  if t = "OP_RETURN".toList then (.ok .ret, [])
  else if t = "OP_CONSTANT      <missing operand>".toList then
    (.error (.missingOperand .constant), [])
  else if t = "OP_RETURN        <missing operand>".toList then (.error (.missingOperand .ret), [])
  else if t = "<decode error: unexpected end of bytecode>".toList then (.error .endOfCode, [])
  else if t.head? = some 'U' then
    (.error (.unknownOpcode (UInt8.ofNat (readNumeral (t.drop 15)).1)), [])
  else
    let (id, constant) := readNumeral ((t.drop 17).dropWhile (· == ' '))
    (.ok (.constant (UInt8.ofNat id)), constant)

/-- Reads a line behind its columns. -/
def readLine (l : Text) : Decoded × Text := readWords (l.dropWhile isMargin)

theorem readNumeral_decimal (n : Nat) : (readNumeral (decimal n)).1 = n := by
  have hall : (decimal n).takeWhile Char.isDigit = decimal n :=
    List.takeWhile_eq_self_iff.2 fun _ h => isDigit_of_mem_decimal h
  rw [readNumeral, hall]
  exact ofDigitChars_decimal n

theorem readNumeral_append (n : Nat) {ch : Char} (hch : ch.isDigit = false) (rest : Text) :
    readNumeral (decimal n ++ ch :: rest) = (n, rest) := by
  have hdigits : ∀ d ∈ decimal n, d.isDigit = true := fun _ h => isDigit_of_mem_decimal h
  have hrest : ∀ d ∈ (ch :: rest).head?, d.isDigit = false := by simp [hch]
  rw [readNumeral, takeWhile_run hdigits hrest, dropWhile_run hdigits hrest, ofDigitChars_decimal]
  rfl

/-- An operand that is there cannot be taken for one that is missing. -/
theorem padLeft_decimal_append_ne (width n : Nat) (rest more : Text) :
    padLeft ' ' width (decimal n) ++ rest ≠ '<' :: more := by
  intro h
  obtain ⟨ch, field, hfield⟩ := List.exists_cons_of_ne_nil (List.ne_nil_of_length_pos
    (Nat.lt_of_lt_of_le (length_decimal_pos n)
      (length_padLeft ' ' width (decimal n) ▸ Nat.le_max_right _ _)))
  rw [hfield, List.cons_append] at h
  have hmem : '<' ∈ padLeft ' ' width (decimal n) := by
    rw [hfield, (List.cons.inj h).1]
    exact List.mem_cons_self
  rcases mem_padLeft hmem with h | h
  · exact absurd h (by decide)
  · exact absurd (isDigit_of_mem_decimal h) (by decide)

/-- The words of a line are read back. -/
theorem readWords_body (c : Chunk) (d : Decoded) : readWords (body c d) = (d, shown c d) := by
  match d with
  | .ok (.constant id) =>
    have hmissing := padLeft_decimal_append_ne 4 id.toNat (' ' :: constantText c id)
    have hoperand : readNumeral (((body c (.ok (.constant id))).drop 17).dropWhile (· == ' ')) =
        (id.toNat, constantText c id) := by
      rw [body_constant, List.drop_left' (by decide),
        dropWhile_padLeft 4 (decimal_ne_nil _) (blank_not_mem_decimal _)]
      exact readNumeral_append _ (by decide) _
    rw [readWords, hoperand, body_constant]
    simp [hmissing, shown]
  | .ok .ret =>
    rw [body_ret]
    rfl
  | .error (.unknownOpcode b) =>
    have hnumeral : (readNumeral ((body c (.error (.unknownOpcode b))).drop 15)).1 = b.toNat := by
      rw [body_unknownOpcode, List.drop_left' (by decide)]
      exact readNumeral_decimal _
    rw [readWords, hnumeral, UInt8.ofNat_toNat, body_unknownOpcode]
    simp [shown]
  | .error (.missingOperand .constant) =>
    rw [body_missingOperand_constant]
    rfl
  | .error (.missingOperand .ret) =>
    rw [body_missingOperand_ret]
    rfl
  | .error .endOfCode =>
    rw [body_endOfCode]
    rfl

/-- A line is read back. -/
theorem readLine_line (c : Chunk) (offset : Nat) :
    readLine (line c offset) = (found c offset, shown c (found c offset)) := by
  rw [readLine, ← body_eq_dropWhile_line, readWords_body]

/-! ## Reading a listing -/

theorem map_readLine_entryLines (c : Chunk) :
    (entryLines c).map readLine = c.entries.map fun e => (e.result, shown c e.result) := by
  rw [entryLines, List.map_map]
  refine List.map_congr_left ?_
  intro e he
  rw [Function.comp_apply, readLine_line, ← result_eq_found he]

/-- The lines of a listing give back the code. -/
theorem flatMap_readLine (c : Chunk) :
    (entryLines c).flatMap (fun l => (readLine l).1.bytes) = c.code.toList := by
  have hread := congrArg (List.flatMap fun p => p.1.bytes) (map_readLine_entryLines c)
  rw [List.flatMap_map, List.flatMap_map] at hread
  rw [hread]
  exact Instruction.flatMap_bytes_entriesFrom 0 c.code.toList

theorem entryLines_eq_of_text_eq {c d : Chunk} (hc : c.size < Size.bound)
    (hd : d.size < Size.bound) {name : Option Text} (h : text ⟨c, name⟩ = text ⟨d, name⟩) :
    entryLines c = entryLines d := by
  rw [text_eq hc, text_eq hd] at h
  have hlines := congrArg lines (List.append_cancel_left h)
  rwa [lines_ofLines (newline_not_mem_entryLines c),
    lines_ofLines (newline_not_mem_entryLines d)] at hlines

/-- What is shown of a constant tells whether it is there, and its text. -/
theorem lookup_of_constantText_eq {c d : Chunk} {id : UInt8}
    (h : constantText c id = constantText d id) :
    (c.lookup id = none ∧ d.lookup id = none) ∨
      ∃ v w, c.lookup id = some v ∧ d.lookup id = some w ∧ v.text = w.text := by
  unfold constantText at h
  cases hv : c.lookup id with
  | none =>
    cases hw : d.lookup id with
    | none => exact Or.inl ⟨rfl, rfl⟩
    | some w =>
      rw [hv, hw] at h
      exact absurd (List.cons.inj h).1 (by decide)
  | some v =>
    cases hw : d.lookup id with
    | none =>
      rw [hv, hw] at h
      exact absurd (List.cons.inj h).1 (by decide)
    | some w =>
      rw [hv, hw] at h
      exact Or.inr ⟨v, w, rfl, rfl, List.append_cancel_right (List.cons.inj h).2⟩

/-- **A listing determines the code**, and the constants as far as they are shown: two reachable
chunks with one listing, under one name or none, have the same bytes, and a constant that an
instruction names is missing in both or has the same text in both. -/
theorem code_eq_of_text_eq {c d : Chunk} (hc : c.Reachable) (hd : d.Reachable)
    {name : Option Text} (h : text ⟨c, name⟩ = text ⟨d, name⟩) :
    c.code.toList = d.code.toList ∧
      ∀ e ∈ c.entries, ∀ id, e.result = .ok (.constant id) →
        (c.lookup id = none ∧ d.lookup id = none) ∨
          ∃ v w, c.lookup id = some v ∧ d.lookup id = some w ∧ v.text = w.text := by
  have hlines := entryLines_eq_of_text_eq hc.size_lt_bound hd.size_lt_bound h
  have hcode : c.code.toList = d.code.toList := by
    rw [← flatMap_readLine c, hlines, flatMap_readLine d]
  refine ⟨hcode, ?_⟩
  intro e he id hid
  -- the same code has the same entries, so the lines can be compared one by one
  have hentries : d.entries = c.entries := by
    rw [Chunk.entries, Chunk.entries, hcode]
  have hread := congrArg (List.map readLine) hlines
  rw [map_readLine_entryLines, map_readLine_entryLines, hentries] at hread
  have hshown : shown c e.result = shown d e.result :=
    congrArg Prod.snd (List.map_inj_left.1 hread e he)
  rw [hid] at hshown
  exact lookup_of_constantText_eq hshown

/-- A chunk that holds a value and names it. -/
def naming (v : Value) : Chunk :=
  Chunk.empty.after [.addConstant v, .writeInstruction (.constant 0) 7]

theorem entries_naming (v : Value) : (naming v).entries = [⟨0, .ok (.constant 0)⟩] := by
  have hcode : (naming v).code.toList = [0, 0] := rfl
  rw [Chunk.entries, hcode, Instruction.entries, Instruction.entriesFrom_cons]
  exact congrArg (List.cons _) (Instruction.entriesFrom_nil _)

/-- Constants of different bits with one text: both stand for no number. -/
theorem code_eq_of_text_eq_of_nan :
    text ⟨naming ⟨0x7ff8000000000000⟩, none⟩ = text ⟨naming ⟨0xfff8000000000001⟩, none⟩ ∧
      (naming ⟨0x7ff8000000000000⟩).code.toList = (naming ⟨0xfff8000000000001⟩).code.toList ∧
      ∃ v w, (naming ⟨0x7ff8000000000000⟩).lookup 0 = some v ∧
        (naming ⟨0xfff8000000000001⟩).lookup 0 = some w ∧ v.text = w.text := by
  have htext : text ⟨naming ⟨0x7ff8000000000000⟩, none⟩ =
      text ⟨naming ⟨0xfff8000000000001⟩, none⟩ := by
    decide +kernel
  obtain ⟨hcode, hshown⟩ := code_eq_of_text_eq (Chunk.reachable_empty.after _)
    (Chunk.reachable_empty.after _) htext
  refine ⟨htext, hcode, ?_⟩
  have hentry : ⟨0, .ok (.constant 0)⟩ ∈ (naming ⟨0x7ff8000000000000⟩).entries := by
    rw [entries_naming]
    exact List.mem_singleton_self _
  rcases hshown _ hentry 0 rfl with ⟨hnone, -⟩ | hsome
  · exact absurd hnone (by decide)
  · exact hsome

end Bytecode.Listing
