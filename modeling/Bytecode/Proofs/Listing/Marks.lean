import Bytecode.Proofs.Listing.Traversal
import Mathlib.Data.List.TakeWhile

/-!
# The marks of source lines

The column of the source line shows one of three marks: a number, a bar for the
line of the byte before, or a question mark where there is no byte.  The column
stands between two blanks behind the digits of the offset, so the mark can be read
off the line.

* `Listing.Mark`, `Listing.mark` — the marks, and the one for an offset.
* `Listing.lineColumn_eq` — the column shows the mark.
* `Listing.readMark_line` — the mark is read back.
* `Listing.marks_text` — the marks of a listing are those for its entries.
* `Listing.marks_of_oneLine` — a single source line is shown once.
-/

namespace Bytecode.Listing

open Text

/-! ## Marks -/

/-- What the column of the source line shows. -/
inductive Mark where
  | number (line : Int)
  /-- The byte comes from the line of the byte before. -/
  | bar
  /-- There is no byte. -/
  | unknown
deriving Repr, DecidableEq

/-- How a mark is written. -/
def Mark.text : Mark → Text
  | .number line => signedDecimal line
  | .bar => ['|']
  | .unknown => ['?']

/-- The source line of the byte before an offset. -/
def lineBefore (c : Chunk) (offset : Nat) : Option Int32 :=
  if offset = 0 then none else c.lineAt (offset - 1)

/-- The mark for an offset. -/
def mark (c : Chunk) (offset : Nat) : Mark :=
  match c.lineAt offset with
  | none => .unknown
  | some line => if lineBefore c offset = some line then .bar else .number line.toInt

theorem mark_of_none {c : Chunk} {offset : Nat} (h : c.lineAt offset = none) :
    mark c offset = .unknown := by
  simp [mark, h]

theorem mark_of_same {c : Chunk} {offset : Nat} {line : Int32} (h : c.lineAt offset = some line)
    (hbefore : lineBefore c offset = some line) : mark c offset = .bar := by
  simp [mark, h, hbefore]

theorem mark_of_change {c : Chunk} {offset : Nat} {line : Int32} (h : c.lineAt offset = some line)
    (hbefore : lineBefore c offset ≠ some line) : mark c offset = .number line.toInt := by
  simp [mark, h, hbefore]

/-- Where the code begins, no line can be that of the byte before. -/
theorem mark_zero {c : Chunk} {line : Int32} (h : c.lineAt 0 = some line) :
    mark c 0 = .number line.toInt :=
  mark_of_change h (by simp [lineBefore])

/-- The column shows the mark, at the right of a field. -/
theorem lineColumn_eq (c : Chunk) (offset : Nat) :
    lineColumn c offset = padLeft ' ' 4 (mark c offset).text ++ [' '] := by
  have hunfold : lineColumn c offset =
      match c.lineAt offset with
      | none => "   ? ".toList
      | some line => if lineBefore c offset = some line then "   | ".toList
        else padLeft ' ' 4 (signedDecimal line.toInt) ++ [' '] := rfl
  rw [hunfold]
  cases hline : c.lineAt offset with
  | none =>
    rw [mark_of_none hline]
    rfl
  | some line =>
    by_cases hbefore : lineBefore c offset = some line
    · rw [mark_of_same hline hbefore]
      simp only [hbefore, if_true]
      rfl
    · rw [mark_of_change hline hbefore]
      simp only [hbefore, if_false, Mark.text]

/-! ## Reading marks -/

/-- Reads the column of the source line: what stands behind the offset, up to the next blank. -/
def readMark (l : Text) : Mark :=
  let field := ((l.dropWhile Char.isDigit).dropWhile (· == ' ')).takeWhile (· != ' ')
  if field = ['|'] then .bar else if field = ['?'] then .unknown else .number (readInteger field)

theorem Mark.text_ne_nil (m : Mark) : m.text ≠ [] := by
  cases m with
  | number line =>
    by_cases hline : line < 0
    · simp [Mark.text, signedDecimal, hline]
    · simp [Mark.text, signedDecimal, hline, decimal_ne_nil]
  | bar => simp [Mark.text]
  | unknown => simp [Mark.text]

theorem Mark.blank_not_mem_text (m : Mark) : ' ' ∉ m.text := by
  cases m with
  | number line =>
    intro h
    exact absurd (isFigure_of_mem_signedDecimal h) (by decide)
  | bar => decide
  | unknown => decide

/-- A number is not written as one of the signs. -/
theorem signedDecimal_ne_singleton {i : Int} {c : Char} (hc : isFigure c = false) :
    signedDecimal i ≠ [c] := by
  intro h
  have hmem : c ∈ signedDecimal i := by simp [h]
  simp [isFigure_of_mem_signedDecimal hmem] at hc

/-- A mark between the columns is read back. -/
theorem readMark_columns (offset : Nat) (m : Mark) (rest : Text) :
    readMark (offsetColumn offset ++ (padLeft ' ' 4 m.text ++ ' ' :: rest)) = m := by
  have hdigits : ∀ d ∈ padLeft '0' 4 (decimal offset), d.isDigit = true := by
    intro d hd
    rcases mem_padLeft hd with rfl | hd
    · decide
    · exact isDigit_of_mem_decimal hd
  have hoffset : (offsetColumn offset ++ (padLeft ' ' 4 m.text ++ ' ' :: rest)).dropWhile
      Char.isDigit = ' ' :: (padLeft ' ' 4 m.text ++ ' ' :: rest) := by
    rw [offsetColumn, List.append_assoc]
    exact dropWhile_run hdigits (by simp)
  have hfield : ((' ' :: (padLeft ' ' 4 m.text ++ ' ' :: rest)).dropWhile (· == ' ')).takeWhile
      (· != ' ') = m.text := by
    have hblank : ∀ d ∈ m.text, (d != ' ') = true := by
      intro d hd
      have hne : d ≠ ' ' := by
        rintro rfl
        exact m.blank_not_mem_text hd
      simp [hne]
    rw [List.dropWhile_cons_of_pos (by decide),
      dropWhile_padLeft 4 m.text_ne_nil m.blank_not_mem_text, takeWhile_run hblank (by simp)]
  simp only [readMark, hoffset, hfield]
  cases m with
  | number line =>
    have hbar : signedDecimal line ≠ ['|'] := signedDecimal_ne_singleton (by decide)
    have hquestion : signedDecimal line ≠ ['?'] := signedDecimal_ne_singleton (by decide)
    simp [Mark.text, hbar, hquestion, readInteger_signedDecimal]
  | bar => simp [Mark.text]
  | unknown => simp [Mark.text]

/-- The mark for an offset is read off its line, whatever stands behind it. -/
theorem readMark_line_append (c : Chunk) (offset : Nat) (rest : Text) :
    readMark (line c offset ++ rest) = mark c offset := by
  have hcolumns : line c offset ++ rest = offsetColumn offset ++
      (padLeft ' ' 4 (mark c offset).text ++ ' ' :: (body c (found c offset) ++ rest)) := by
    rw [line_eq, columns, lineColumn_eq]
    simp
  rw [hcolumns, readMark_columns]

theorem readMark_line (c : Chunk) (offset : Nat) : readMark (line c offset) = mark c offset := by
  have h := readMark_line_append c offset []
  rwa [List.append_nil] at h

/-! ## The marks of a listing -/

/-- The marks of a text that is read as a listing without a header. -/
def marks (t : Text) : List Mark := (lines t).map readMark

theorem marks_text {c : Chunk} (hc : c.size < Size.bound) :
    marks (text ⟨c, none⟩) = c.entries.map fun e => mark c e.offset := by
  rw [marks, text_eq hc, header, List.nil_append, lines_ofLines (newline_not_mem_entryLines c),
    entryLines, List.map_map]
  apply List.map_congr_left
  intro e _
  rw [Function.comp_apply, readMark_line]

/-! ## Listings of one source line -/

/-- The marks of `n` entries from one line: its number comes first, and bars follow. -/
def onceMarked (line : Int) : Nat → List Mark
  | 0 => []
  | n + 1 => .number line :: List.replicate n .bar

section OneLine

variable {c : Chunk} {line : Int32}

theorem lineAt_of_oneLine (h : c.lines.toList = List.replicate c.size line) {offset : Nat}
    (hlt : offset < c.size) : c.lineAt offset = some line := by
  rw [Chunk.lineAt, Buffer.get?_eq, h, List.getElem?_replicate, if_pos hlt]

theorem mark_of_oneLine (h : c.lines.toList = List.replicate c.size line) {offset : Nat}
    (hpos : 0 < offset) (hlt : offset < c.size) : mark c offset = .bar := by
  refine mark_of_same (lineAt_of_oneLine h hlt) ?_
  rw [lineBefore, if_neg (by omega)]
  exact lineAt_of_oneLine h (by omega)

/-- Where all bytes come from one line, it is shown by the first entry and by no other one. -/
theorem marks_of_oneLine (hc : c.size < Size.bound)
    (h : c.lines.toList = List.replicate c.size line) :
    marks (text ⟨c, none⟩) = onceMarked line.toInt c.entries.length := by
  rw [marks_text hc]
  have htiles := tiles_entries c
  have hinside : ∀ e ∈ c.entries, e.offset < c.size := fun e he => offset_lt_size he
  cases hentries : c.entries with
  | nil => rfl
  | cons e rest =>
    rw [hentries] at htiles hinside
    obtain ⟨hfirst, hrest⟩ := htiles
    have hsize := hinside e List.mem_cons_self
    rw [hfirst] at hsize
    have hbars : rest.map (fun e => mark c e.offset) = List.replicate rest.length .bar := by
      rw [List.map_eq_replicate_iff]
      intro e' he'
      have hpos := e.result.width_pos
      have hle := hrest.le_offset he'
      exact mark_of_oneLine h (by omega) (hinside e' (List.mem_cons_of_mem _ he'))
    rw [List.map_cons, hfirst, mark_zero (lineAt_of_oneLine h hsize), hbars, List.length_cons,
      onceMarked]

end OneLine

end Bytecode.Listing
