import Bytecode.Proofs.Listing.Traversal

/-!
# A new constant in a listing

An instruction may name a constant before there is one.  When it is added, the
lines of such instructions show it; all other lines stay, and nothing moves.

* `Listing.writeAt_congr` — writing a line does what the line and what is found at
  the offset tell.
* `Listing.constantText_of_none`, `Listing.constantText_of_some` — what is shown of
  a constant.
* `Listing.Shows` — what a new constant changes in the lines of a chunk.
* `Listing.shows_addConstant` — adding a constant changes just this, or nothing.
-/

namespace Bytecode.Listing

variable {c d : Chunk} {offset : Nat}

/-! ## Writing the lines of two chunks -/

theorem found_congr (h : d.code = c.code) (offset : Nat) : found d offset = found c offset := by
  rw [found, found, h]

theorem lineColumn_of_sameLines (h : d.lines = c.lines) (offset : Nat) :
    lineColumn d offset = lineColumn c offset := by
  have hline : ∀ offset, d.lineAt offset = c.lineAt offset := by
    intro offset
    rw [Chunk.lineAt, Chunk.lineAt, h]
  exact lineColumn_congr (hline offset) (hline (offset - 1))

/-- Writing a line does what the line and what is found at the offset tell. -/
theorem writeAt_congr (hline : line d offset = line c offset)
    (hfound : found d offset = found c offset) (s : Sink) :
    (writeAt d offset s).reply = (writeAt c offset s).reply ∧
      (writeAt d offset s).state = (writeAt c offset s).state := by
  simp only [writeAt, Outcome.andThen_done, hline, hfound, and_self]

/-- The next offset does not depend on the line, if the sink has no limit. -/
theorem reply_writeAt_congr (hfound : found d offset = found c offset) (t : Text) :
    (writeAt d offset (.taken t)).reply = (writeAt c offset (.taken t)).reply := by
  simp only [writeAt, Outcome.andThen_done, Sink.write_taken, hfound]
  cases advance offset (found c offset) with
  | error e => simp [Outcome.stop]
  | ok next => simp [Outcome.done]

/-! ## What is shown of a constant -/

theorem constantText_of_none {id : UInt8} (h : c.lookup id = none) :
    constantText c id = "<invalid constant>".toList := by
  rw [constantText, h]

theorem constantText_of_some {id : UInt8} {v : Value} (h : c.lookup id = some v) :
    constantText c id = '\'' :: v.text ++ ['\''] := by
  rw [constantText, h]

/-- The line of an instruction that names a constant, up to what is shown of the constant. -/
def lineStart (c : Chunk) (offset : Nat) (id : UInt8) : Text :=
  columns c offset ++ ("OP_CONSTANT      ".toList ++ (Text.padLeft ' ' 4 (Text.decimal id.toNat) ++
    [' ']))

theorem textAt_of_found_constant {id : UInt8} (h : found c offset = .ok (.constant id)) :
    textAt c offset = lineStart c offset id ++ (constantText c id ++ ['\n']) := by
  rw [textAt_eq, line_eq, h, body_constant, lineStart]
  simp only [List.append_assoc, List.cons_append, List.nil_append]

/-! ## A new constant -/

/-- The lines of `d` are those of `c`, but for those that name `id`: they show `v` where nothing
could be shown. -/
structure Shows (c d : Chunk) (id : UInt8) (v : Value) : Prop where
  /-- A line that does not name the constant is written as before, whatever the sink takes. -/
  other : ∀ offset, Instruction.decode (c.code.toList.drop offset) ≠ .ok (.constant id) →
    ∀ s : Sink, (writeAt d offset s).reply = (writeAt c offset s).reply ∧
      (writeAt d offset s).state = (writeAt c offset s).state
  /-- A line that names it ended in a complaint, and ends in its text between quotes. -/
  named : ∀ offset, Instruction.decode (c.code.toList.drop offset) = .ok (.constant id) →
    ∃ start, textAt c offset = start ++ "<invalid constant>\n".toList ∧
      textAt d offset = start ++ ('\'' :: v.text ++ "'\n".toList)
  /-- The next offset is the same for all lines. -/
  next : ∀ offset, (writeAt d offset (.fresh none)).reply = (writeAt c offset (.fresh none)).reply
  entries : d.entries = c.entries
  lines : ∀ name, (text ⟨d, name⟩).count '\n' = (text ⟨c, name⟩).count '\n'

theorem count_newline_text (hc : c.size < Size.bound) (name : Option Text) :
    (text ⟨c, name⟩).count '\n' = (header name).count '\n' + c.entries.length := by
  rw [text_eq hc, List.count_append, Text.count_ofLines (newline_not_mem_entryLines c), entryLines,
    List.length_map]

/-- A chunk that differs in one constant alone, which was not there before. -/
theorem shows_of_lookup {id : UInt8} {v : Value} (hc : c.size < Size.bound)
    (hcode : d.code = c.code) (hlines : d.lines = c.lines) (hnone : c.lookup id = none)
    (hsome : d.lookup id = some v)
    (hother : ∀ other, other ≠ id → d.lookup other = c.lookup other) :
    Shows c d id v := by
  have hentries : d.entries = c.entries := by rw [Chunk.entries, Chunk.entries, hcode]
  have hsize : d.size = c.size := by rw [Chunk.size, Chunk.size, hcode]
  have hcolumns : ∀ offset, columns d offset = columns c offset := by
    intro offset
    rw [columns, columns, lineColumn_of_sameLines hlines]
  constructor
  case other =>
    intro offset hfound s
    rw [← found_eq] at hfound
    have hbody : body d (found c offset) = body c (found c offset) := by
      apply body_congr
      intro other hr
      apply hother
      rintro rfl
      exact hfound hr
    have hline : line d offset = line c offset := by
      rw [line_eq, line_eq, hcolumns, found_congr hcode, hbody]
    exact writeAt_congr hline (found_congr hcode offset) s
  case named =>
    intro offset hfound
    rw [← found_eq] at hfound
    have hstart : lineStart d offset id = lineStart c offset id := by
      rw [lineStart, lineStart, hcolumns]
    refine ⟨lineStart c offset id, ?_, ?_⟩
    · rw [textAt_of_found_constant hfound, constantText_of_none hnone]
      rfl
    · rw [textAt_of_found_constant (by rw [found_congr hcode, hfound]), hstart,
        constantText_of_some hsome]
      simp
  case next =>
    intro offset
    exact reply_writeAt_congr (found_congr hcode offset) []
  case entries => exact hentries
  case lines =>
    intro name
    rw [count_newline_text hc, count_newline_text (hsize ▸ hc), hentries]

/-- **Adding a constant** to a reachable chunk shows it in the lines of the instructions that name
it, and changes nothing else about the listing; if it cannot be added, nothing changes at all. -/
theorem shows_addConstant {c : Chunk} (hc : c.Reachable) (v : Value) :
    (∃ r, (c.addConstant v).reply = .ok r) ∧
    (∀ id, (c.addConstant v).reply = .ok (.ok id) → Shows c (c.addConstant v).state id v) ∧
    ∀ e, (c.addConstant v).reply = .ok (.error e) →
      (∀ offset s, writeAt (c.addConstant v).state offset s = writeAt c offset s) ∧
      ∀ name s, Listing.write ⟨(c.addConstant v).state, name⟩ s = Listing.write ⟨c, name⟩ s := by
  obtain ⟨accepted, hholds⟩ := hc.exists_holdsConstants
  obtain ⟨hcode, hlines⟩ := c.sameCode_addConstant v
  refine ⟨?_, ?_, ?_⟩
  · have hreply := hholds.reply_addConstant v
    cases hr : (c.addConstant v).reply with
    | error e => simp [hr, Except.isOk, Except.toBool] at hreply
    | ok r => exact ⟨r, rfl⟩
  · intro id hid
    obtain ⟨hnone, hsome, hother⟩ := hholds.lookup_addConstant hid
    exact shows_of_lookup hc.size_lt_bound hcode hlines hnone hsome hother
  · intro e he
    rw [hholds.state_addConstant_of_error he]
    exact ⟨fun _ _ => rfl, fun _ _ => rfl⟩

/-- A chunk that names two constants before it holds any. -/
def ahead : Chunk :=
  Chunk.empty.after [.writeInstruction (.constant 0) 7, .writeInstruction (.constant 1) 7]

/-- A chunk whose pool is full. -/
def full : Chunk := Chunk.empty.after (List.replicate 256 (.addConstant .zero))

/-- The first of two constants is shown where it was missing; a full pool stays as it is. -/
theorem shows_addConstant_of_ahead :
    ahead.Reachable ∧ (ahead.addConstant .infinity).reply = .ok (.ok 0) ∧
      Shows ahead (ahead.addConstant .infinity).state 0 .infinity ∧
      full.Reachable ∧ (full.addConstant .infinity).reply = .ok (.error Chunk.poolFull) ∧
      ∀ name s, Listing.write ⟨(full.addConstant .infinity).state, name⟩ s =
        Listing.write ⟨full, name⟩ s := by
  have hahead : ahead.Reachable := Chunk.reachable_empty.after _
  have hfull : full.Reachable := Chunk.reachable_empty.after _
  have hok : (ahead.addConstant .infinity).reply = .ok (.ok 0) := rfl
  have herror : (full.addConstant .infinity).reply = .ok (.error Chunk.poolFull) := by
    rw [Chunk.addConstant_of_full _ (by decide +kernel)]
    rfl
  refine ⟨hahead, hok, ?_, hfull, herror, ?_⟩
  · exact (shows_addConstant hahead .infinity).2.1 0 hok
  · exact ((shows_addConstant hfull .infinity).2.2 _ herror).2

end Bytecode.Listing
