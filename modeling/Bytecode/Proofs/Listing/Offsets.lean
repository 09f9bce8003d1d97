import Bytecode.Proofs.Listing.Marks

/-!
# A line can be written for any offset

A line is asked for by an offset, which may lie inside an instruction, at the end
of the code or far beyond it.  Whatever it is, one line is written, and there is an
offset behind what it shows; only the largest machine word has none.

* `Listing.question_mem_line_iff`, `Listing.endOfCode_isInfix_line_iff` — the signs
  of an offset beyond the code, and when a line shows them.
* `Listing.width_fits_iff` — when there is a next offset.
* `Listing.SafeAt` — what holds of the line for an offset.
* `Listing.safeAt_of_reachable` — it holds for every offset into a reachable chunk
  and beyond it, and no listing shows the signs.
-/

namespace Bytecode.Listing

open Text

variable {c : Chunk} {offset : Nat}

/-! ## Inside the code and beyond it -/

theorem found_of_le (h : c.size ≤ offset) : found c offset = .error .endOfCode := by
  have hdrop : c.code.toList.drop offset = [] := List.drop_eq_nil_of_le h
  rw [found_eq, hdrop]
  rfl

theorem found_ne_endOfCode (h : offset < c.size) : found c offset ≠ .error .endOfCode := by
  rw [found_eq]
  cases hdrop : c.code.toList.drop offset with
  | nil =>
    have hlen := List.drop_eq_nil_iff.1 hdrop
    rw [length_code] at hlen
    omega
  | cons b rest => exact Instruction.decode_cons_ne_endOfCode b rest

/-- The end of the code is found beyond it, and nowhere else. -/
theorem found_eq_endOfCode_iff : found c offset = .error .endOfCode ↔ c.size ≤ offset := by
  constructor
  · intro h
    by_contra hlt
    exact found_ne_endOfCode (Nat.lt_of_not_le hlt) h
  · exact found_of_le

/-- The source line of an offset is unknown beyond the code, and nowhere else. -/
theorem mark_eq_unknown_iff (hc : c.Reachable) : mark c offset = .unknown ↔ c.size ≤ offset := by
  have hline : (c.lineAt offset).isSome = true ↔ offset < c.size := hc.lineAt_isSome_iff
  cases hshown : c.lineAt offset with
  | none =>
    rw [hshown] at hline
    have hle : c.size ≤ offset := by simpa using hline
    simp [mark_of_none hshown, hle]
  | some line =>
    rw [hshown] at hline
    have hlt : offset < c.size := by simpa using hline
    by_cases hbefore : lineBefore c offset = some line
    · simp [mark_of_same hshown hbefore, hlt]
    · simp [mark_of_change hshown hbefore, hlt]

/-! ## The signs of an offset beyond the code -/

theorem question_mem_text_iff (m : Mark) : '?' ∈ m.text ↔ m = .unknown := by
  cases m with
  | number line =>
    have hno : '?' ∉ signedDecimal line := by
      intro h
      exact absurd (isFigure_of_mem_signedDecimal h) (by decide)
    simp [Mark.text, hno]
  | bar => simp [Mark.text]
  | unknown => simp [Mark.text]

theorem question_not_mem_body (c : Chunk) (d : Decoded) : '?' ∉ body c d := by
  by_cases hd : d = .error .endOfCode
  · rw [hd, body_endOfCode]
    decide
  · intro h
    exact absurd (isScript_of_mem_body hd h) (by decide)

theorem question_not_mem_offsetColumn (offset : Nat) : '?' ∉ offsetColumn offset := by
  intro h
  rcases List.mem_append.1 h with h | h
  · rcases mem_padLeft h with h | h
    · exact absurd h (by decide)
    · exact absurd (isDigit_of_mem_decimal h) (by decide)
  · exact absurd h (by decide)

/-- A line holds a question mark only as the mark of its source line. -/
theorem question_mem_line_iff (c : Chunk) (offset : Nat) :
    '?' ∈ line c offset ↔ mark c offset = .unknown := by
  have hcolumn : '?' ∈ lineColumn c offset ↔ mark c offset = .unknown := by
    rw [lineColumn_eq, ← question_mem_text_iff]
    simp [padLeft]
  rw [line_eq, columns, List.append_assoc, List.mem_append, List.mem_append, hcolumn]
  simp [question_not_mem_offsetColumn, question_not_mem_body]

/-- A colon stands in the words for the end of the code only. -/
theorem colon_not_mem_line (h : found c offset ≠ .error .endOfCode) : ':' ∉ line c offset := by
  rw [line_eq, List.mem_append, not_or]
  constructor
  · intro hmem
    exact absurd (isMargin_of_mem_columns hmem) (by decide)
  · intro hmem
    exact absurd (isScript_of_mem_body h hmem) (by decide)

/-- The words for the end of the code. -/
def endOfCodeText : Text := "<decode error: unexpected end of bytecode>".toList

theorem body_eq_endOfCodeText (c : Chunk) : body c (.error .endOfCode) = endOfCodeText :=
  body_endOfCode c

theorem colon_mem_of_isInfix {t : Text} (h : endOfCodeText <:+: t) : ':' ∈ t :=
  h.subset (by decide)

/-- A line holds the words for the end of the code only where it is about that end. -/
theorem endOfCode_isInfix_line_iff (c : Chunk) (offset : Nat) (rest : Text) (hrest : ':' ∉ rest) :
    endOfCodeText <:+: line c offset ++ rest ↔ found c offset = .error .endOfCode := by
  constructor
  · intro h
    by_contra hfound
    rcases List.mem_append.1 (colon_mem_of_isInfix h) with hmem | hmem
    · exact colon_not_mem_line hfound hmem
    · exact hrest hmem
  · intro h
    rw [line_eq, h, body_eq_endOfCodeText]
    exact List.infix_append _ _ _

/-! ## The next offset -/

/-- Only the largest machine word has no offset behind it. -/
theorem width_fits_iff (hc : c.Reachable) (h : offset < Size.bound) :
    offset + (found c offset).width < Size.bound ↔ offset ≠ Size.bound - 1 := by
  have hpos := (found c offset).width_pos
  have hwithin := width_found_le c offset
  have hsize := hc.size_lt_bound
  omega

theorem writeAt_taken_of_le (t : Text) (h : Size.bound ≤ offset + (found c offset).width) :
    writeAt c offset (.taken t) =
      .stop (.taken (t ++ (line c offset ++ ['\n']))) (.overflow .add) (lineEvents c offset) := by
  simp only [writeAt, Outcome.andThen_done, Sink.write_taken, advance_of_le h]
  simp [Outcome.stop]

/-- Where what is found at an offset ends. -/
theorem offset_add_width_eq (h : c.size ≤ offset) :
    offset + (found c offset).width = offset + 1 := by
  rw [found_of_le h]
  rfl

theorem offset_add_width_le (h : offset < c.size) :
    offset + (found c offset).width ≤ c.size := by
  have hwithin := width_found_le c offset
  omega

/-! ## Lines for all offsets -/

/-- A fault is that of an offset that has no successor. -/
def IsAddOverflow (fault : WriteFault) : Prop :=
  ∃ reason : Overflow, fault = .overflow reason ∧ reason.message = "attempt to add with overflow"

theorem isAddOverflow_iff {fault : WriteFault} : IsAddOverflow fault ↔ fault = .overflow .add := by
  constructor
  · rintro ⟨reason, rfl, hmessage⟩
    cases reason with
    | add => rfl
    | multiply => exact absurd hmessage (by decide)
  · rintro rfl
    exact ⟨.add, rfl, rfl⟩

/-- What holds of the line for an offset. -/
structure SafeAt (c : Chunk) (offset : Nat) : Prop where
  /-- One line is written behind what a sink without a limit has taken, whatever comes of it. -/
  line : ∃ l : Text, '\n' ∉ l ∧ ∀ s : Sink, s.limit = none →
    (writeAt c offset s).state.text.toList = s.text.toList ++ (l ++ ['\n'])
  /-- The reply is an offset that lies further on, but still inside the code or at its end. -/
  next : offset ≠ Size.bound - 1 → ∀ s : Sink, s.limit = none →
    ∃ next, (writeAt c offset s).reply = .ok next ∧ offset < next.val ∧ next.val < Size.bound ∧
      (offset < c.size → next.val ≤ c.size) ∧ (c.size ≤ offset → next.val = offset + 1)
  /-- There is no reply for the largest machine word, and for no other offset. -/
  overflow : ∀ s : Sink, s.limit = none → ∀ fault,
    (writeAt c offset s).reply = .error fault ↔ offset = Size.bound - 1 ∧ IsAddOverflow fault
  /-- The same goes for printing the line, and then nothing is printed. -/
  print : ∀ fault,
    (printAt c offset).reply = .error fault ↔ offset = Size.bound - 1 ∧ IsAddOverflow fault
  printed : offset = Size.bound - 1 → (printAt c offset).state.text = ""
  /-- The signs of an offset beyond the code: the mark of its source line … -/
  mark : readMark (textAt c offset) = .unknown ↔ c.size ≤ offset
  question : '?' ∈ textAt c offset ↔ c.size ≤ offset
  /-- … and the words for it. -/
  words : "<decode error: unexpected end of bytecode>".toList <:+: textAt c offset ↔ c.size ≤ offset

/-- Only the line for the largest machine word is followed by an error. -/
theorem reply_writeAt_eq_error_iff (hc : c.Reachable) (h : offset < Size.bound) (t : Text)
    (fault : WriteFault) :
    (writeAt c offset (.taken t)).reply = .error fault ↔
      offset = Size.bound - 1 ∧ IsAddOverflow fault := by
  rw [isAddOverflow_iff]
  by_cases hlast : offset = Size.bound - 1
  · have hwidth : Size.bound ≤ offset + (found c offset).width := by
      by_contra hfits
      exact (width_fits_iff hc h).1 (Nat.lt_of_not_le hfits) hlast
    rw [writeAt_taken_of_le t hwidth]
    simp [Outcome.stop, hlast, eq_comm]
  · obtain ⟨next, events, -, hline⟩ := writeAt_taken c offset t ((width_fits_iff hc h).2 hlast)
    rw [hline]
    simp [Outcome.done, hlast]

/-- The reply for any other offset lies further on, but not behind the end of the code. -/
theorem exists_reply_writeAt (hc : c.Reachable) (h : offset < Size.bound)
    (hlast : offset ≠ Size.bound - 1) (t : Text) :
    ∃ next, (writeAt c offset (.taken t)).reply = .ok next ∧ offset < next.val ∧
      next.val < Size.bound ∧ (offset < c.size → next.val ≤ c.size) ∧
      (c.size ≤ offset → next.val = offset + 1) := by
  have hfits := (width_fits_iff hc h).2 hlast
  obtain ⟨next, events, hnext, hline⟩ := writeAt_taken c offset t hfits
  refine ⟨next, ?_, next.property, ?_, ?_, ?_⟩
  · rw [hline]
    rfl
  · rwa [hnext]
  · intro hlt
    rw [hnext]
    exact offset_add_width_le hlt
  · intro hle
    rw [hnext, offset_add_width_eq hle]

theorem printAt_last (hc : c.Reachable) :
    printAt c (Size.bound - 1) =
      .stop (.fresh none) (.overflow .add) (lineEvents c (Size.bound - 1)) := by
  have hbound : 0 < Size.bound := by decide
  have hwidth : Size.bound ≤ Size.bound - 1 + (found c (Size.bound - 1)).width := by
    by_contra hfits
    exact (width_fits_iff hc (by omega)).1 (Nat.lt_of_not_le hfits) rfl
  rw [printAt, Sink.fresh_none, writeAt_taken_of_le [] hwidth]
  simp [Outcome.stop]

theorem reply_printAt_eq_error_iff (hc : c.Reachable) (h : offset < Size.bound)
    (fault : WriteFault) :
    (printAt c offset).reply = .error fault ↔ offset = Size.bound - 1 ∧ IsAddOverflow fault := by
  by_cases hlast : offset = Size.bound - 1
  · rw [hlast, printAt_last hc, isAddOverflow_iff]
    simp [Outcome.stop, eq_comm]
  · have hlt : offset < Size.bound - 1 := by omega
    obtain ⟨next, events, -, hprint⟩ := printAt_eq hc.size_lt_bound hlt
    rw [hprint]
    simp [Outcome.done, hlast]

/-! ## No signs in a listing -/

/-- No line of a listing is about an offset beyond the code. -/
theorem question_not_mem_lines (hc : c.Reachable) : '?' ∉ ofLines (entryLines c) := by
  apply not_mem_ofLines (by decide)
  intro l hl
  obtain ⟨e, he, rfl⟩ := List.mem_map.1 hl
  rw [question_mem_line_iff, mark_eq_unknown_iff hc]
  exact Nat.not_le.2 (offset_lt_size he)

theorem colon_not_mem_lines (c : Chunk) : ':' ∉ ofLines (entryLines c) := by
  apply not_mem_ofLines (by decide)
  intro l hl
  obtain ⟨e, he, rfl⟩ := List.mem_map.1 hl
  exact colon_not_mem_line (found_ne_endOfCode (offset_lt_size he))

/-! ## All offsets -/

/-- **A line can be written for every offset** into a reachable chunk and beyond it, and the signs
of an offset beyond the code stand in no listing, behind its header. -/
theorem safeAt_of_reachable {c : Chunk} (hc : c.Reachable) :
    (∀ offset < Size.bound, SafeAt c offset) ∧
    ∀ name, ∃ rest, text ⟨c, name⟩ = header name ++ rest ∧ '?' ∉ rest ∧
      ¬ "<decode error: unexpected end of bytecode>".toList <:+: rest := by
  refine ⟨fun offset h => ?_, fun name => ?_⟩
  · constructor
    case line =>
      refine ⟨line c offset, newline_not_mem_line c offset, ?_⟩
      intro s hs
      obtain ⟨t, rfl⟩ := Sink.exists_eq_taken hs
      rw [state_writeAt_taken, Sink.toList_text_taken, Sink.toList_text_taken]
    case next =>
      intro hlast s hs
      obtain ⟨t, rfl⟩ := Sink.exists_eq_taken hs
      exact exists_reply_writeAt hc h hlast t
    case overflow =>
      intro s hs fault
      obtain ⟨t, rfl⟩ := Sink.exists_eq_taken hs
      exact reply_writeAt_eq_error_iff hc h t fault
    case print => exact reply_printAt_eq_error_iff hc h
    case printed =>
      intro hlast
      rw [hlast, printAt_last hc]
      rfl
    case mark =>
      rw [textAt_eq, readMark_line_append, mark_eq_unknown_iff hc]
    case question =>
      rw [textAt_eq, List.mem_append, question_mem_line_iff, mark_eq_unknown_iff hc]
      simp
    case words =>
      rw [textAt_eq, ← found_eq_endOfCode_iff]
      exact endOfCode_isInfix_line_iff c offset ['\n'] (by decide)
  · refine ⟨ofLines (entryLines c), text_eq hc.size_lt_bound name, question_not_mem_lines hc, ?_⟩
    intro hwords
    exact colon_not_mem_lines c (colon_mem_of_isInfix hwords)

/-- A chunk of a single instruction, which takes up two bytes. -/
def single : Chunk := Chunk.empty.after [.writeInstruction (.constant 3) (-4)]

/-- Lines can be written for an offset inside the instruction, for the end of the code and for the
largest machine word; only the last two show the signs of an offset beyond the code. -/
theorem safeAt_of_single :
    single.Reachable ∧ '?' ∉ textAt single 1 ∧ '?' ∈ textAt single 2 ∧
      (printAt single (Size.bound - 1)).state.text = "" := by
  have hsingle : single.Reachable := Chunk.reachable_empty.after _
  obtain ⟨hsafe, -⟩ := safeAt_of_reachable hsingle
  have hsize : single.size = 2 := rfl
  refine ⟨hsingle, ?_, ?_, ?_⟩
  · rw [(hsafe 1 (by decide)).question, hsize]
    decide
  · rw [(hsafe 2 (by decide)).question, hsize]
  · exact (hsafe (Size.bound - 1) (by decide)).printed rfl

end Bytecode.Listing
