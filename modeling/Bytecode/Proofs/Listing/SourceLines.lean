import Bytecode.Proofs.Chunk.EvenLines
import Bytecode.Proofs.Listing.Marks

/-!
# Source lines are read back from a listing

A bar looks at the byte before, but a reader of the listing looks at the entry
above.  Both mean one source line where every entry comes from one line: the byte
before an entry is the last one of the entry above it.

* `Listing.sourceLines` — the source lines that a reader finds from top to bottom.
* `Listing.line?_mark` — a mark stands for the line of its byte, given that of the
  byte before.
* `Listing.readDown_mark` — so the marks of entries end to end stand for their
  lines.
* `Listing.sourceLines_text` — the lines of a reachable chunk are read back, and
  no number is shown twice in a row.
-/

namespace Bytecode.Listing

/-! ## Reading from top to bottom -/

/-- The source line that a mark stands for, below an entry from the line `above`. -/
def Mark.line? (above : Option Int) : Mark → Option Int
  | .number line => some line
  | .bar => above
  | .unknown => none

/-- Reads marks from top to bottom. -/
def readDown (above : Option Int) : List Mark → List (Option Int)
  | [] => []
  | m :: rest => m.line? above :: readDown (m.line? above) rest

/-- The source lines that a reader finds in a listing without a header. -/
def sourceLines (t : Text) : List (Option Int) := readDown none (marks t)

variable {c : Chunk}

/-- A mark stands for the line of its byte. -/
theorem line?_mark (c : Chunk) (offset : Nat) :
    (mark c offset).line? ((lineBefore c offset).map Int32.toInt) =
      (c.lineAt offset).map Int32.toInt := by
  cases hline : c.lineAt offset with
  | none => simp [mark_of_none hline, Mark.line?]
  | some line =>
    by_cases hbefore : lineBefore c offset = some line
    · simp [mark_of_same hline hbefore, Mark.line?, hbefore]
    · simp [mark_of_change hline hbefore, Mark.line?]

/-- The byte before the next entry is the last one of an entry. -/
theorem lineBefore_next {e : Entry}
    (h : ∀ i < e.result.width, c.lineAt (e.offset + i) = c.lineAt e.offset) :
    lineBefore c (e.offset + e.result.width) = c.lineAt e.offset := by
  have hpos := e.result.width_pos
  have hlast : e.offset + e.result.width - 1 = e.offset + (e.result.width - 1) := by omega
  rw [lineBefore, if_neg (by omega), hlast]
  exact h _ (by omega)

/-- The marks of entries that lie end to end stand for their lines. -/
theorem readDown_mark {start stop : Nat} {es : List Entry} (h : Tiles start es stop)
    (heven : ∀ e ∈ es, ∀ i < e.result.width, c.lineAt (e.offset + i) = c.lineAt e.offset) :
    readDown ((lineBefore c start).map Int32.toInt) (es.map fun e => mark c e.offset) =
      es.map fun e => (c.lineAt e.offset).map Int32.toInt := by
  induction es generalizing start with
  | nil => simp [readDown]
  | cons e rest ih =>
    obtain ⟨rfl, hrest⟩ := h
    -- the line of this entry is the one that the next entry looks at
    have hnext := lineBefore_next (heven e List.mem_cons_self)
    have hrest := ih hrest fun e' he' => heven e' (List.mem_cons_of_mem _ he')
    rw [hnext] at hrest
    rw [List.map_cons, List.map_cons, readDown, line?_mark, hrest]

/-! ## The numbers that are shown -/

theorem exists_of_mark_eq_number {offset : Nat} {line : Int} (h : mark c offset = .number line) :
    ∃ l, c.lineAt offset = some l ∧ l.toInt = line ∧ lineBefore c offset ≠ some l := by
  cases hline : c.lineAt offset with
  | none => simp [mark_of_none hline] at h
  | some l =>
    by_cases hbefore : lineBefore c offset = some l
    · simp [mark_of_same hline hbefore] at h
    · rw [mark_of_change hline hbefore] at h
      cases h
      exact ⟨l, rfl, rfl, hbefore⟩

/-- The number of an entry is not shown again for the next one. -/
theorem mark_next_ne {e : Entry}
    (h : ∀ i < e.result.width, c.lineAt (e.offset + i) = c.lineAt e.offset) {line : Int}
    (hmark : mark c e.offset = .number line) :
    mark c (e.offset + e.result.width) ≠ .number line := by
  intro hagain
  obtain ⟨l, hline, hl, -⟩ := exists_of_mark_eq_number hmark
  obtain ⟨l', -, hl', hchange⟩ := exists_of_mark_eq_number hagain
  have hsame : l' = l := Int32.toInt_inj.1 (hl'.trans hl.symm)
  apply hchange
  rw [lineBefore_next h, hline, hsame]

/-! ## The source lines of a chunk -/

/-- **Source lines are read back from a listing** of a reachable chunk in which every entry comes
from one line: the first entry shows a number, a number is never shown again for the next entry, and
reading from top to bottom gives the line of every entry.  Every chunk to which nothing but
instructions has been written is such a chunk. -/
theorem sourceLines_text :
    (∀ c : Chunk, c.Reachable → c.EvenlyLined →
      sourceLines (text ⟨c, none⟩) = c.entries.map (fun e => (c.lineAt e.offset).map Int32.toInt) ∧
      (∀ m, (marks (text ⟨c, none⟩)).head? = some m → ∃ line, m = .number line) ∧
      (marks (text ⟨c, none⟩)).IsChain fun m next => ∀ line, m = .number line →
        next ≠ .number line) ∧
    ∀ commands : List Session.ChunkCommand,
      (∀ command ∈ commands, command.writesBytes = false) →
      (Chunk.empty.after commands).Reachable ∧ (Chunk.empty.after commands).EvenlyLined := by
  refine ⟨?_, fun commands h => ⟨Chunk.reachable_empty.after commands, Chunk.evenlyLined_after h⟩⟩
  intro c hc heven
  have hmarks := marks_text hc.size_lt_bound
  refine ⟨?_, ?_, ?_⟩
  · rw [sourceLines, hmarks]
    exact readDown_mark (tiles_entries c) heven
  · intro m hm
    rw [hmarks, List.head?_map, Option.map_eq_some_iff] at hm
    obtain ⟨e, he, rfl⟩ := hm
    have hlt := offset_lt_size (List.mem_of_mem_head? he)
    rw [(tiles_entries c).head? he] at hlt ⊢
    obtain ⟨line, hline⟩ := Option.isSome_iff_exists.1 (hc.lineAt_isSome_iff.2 hlt)
    exact ⟨line.toInt, mark_zero hline⟩
  · rw [hmarks, List.isChain_map]
    apply (tiles_entries c).isChain.imp_of_mem_imp
    intro e next he _ hnext line hmark
    rw [hnext]
    exact mark_next_ne (heven e he) hmark

/-- A chunk with a negative line, bytes that are no opcodes, and an operand that is cut off. -/
def scraps : Chunk :=
  Chunk.empty.after [.writeInstruction (.constant 3) (-4), .write [9, 9] (-4),
    .writeOpcode .constant 12]

/-- The lines of scraps are read back; two instructions in a row may come from one line. -/
theorem sourceLines_text_of_scraps :
    scraps.Reachable ∧ scraps.EvenlyLined ∧
      sourceLines (text ⟨scraps, none⟩) = [some (-4), some (-4), some (-4), some 12] ∧
      (Chunk.empty.after [.writeInstruction .ret 7, .writeInstruction .ret 7]).EvenlyLined := by
  obtain ⟨hlisting, hinstructions⟩ := sourceLines_text
  have hreachable : scraps.Reachable := Chunk.reachable_empty.after _
  have heven : scraps.EvenlyLined := by decide +kernel
  obtain ⟨hread, -, -⟩ := hlisting scraps hreachable heven
  refine ⟨hreachable, heven, ?_, ?_⟩
  · rw [hread]
    decide +kernel
  · exact (hinstructions [.writeInstruction .ret 7, .writeInstruction .ret 7] (by decide)).2

end Bytecode.Listing
