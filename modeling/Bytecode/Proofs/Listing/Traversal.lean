import Bytecode.Proofs.Chunk.Reachable
import Bytecode.Proofs.Instruction.Tiling
import Bytecode.Proofs.Listing.Line
import Bytecode.Proofs.Text.Lines

/-!
# All ways through a listing show the same

The lines of a chunk are reached in three ways: by the walk over its code, by the
loop that writes a listing, and by writing one line after the other.  Each keeps
its own offset, and all of them stop at the same offsets.

* `Sink.taken` — a sink without a limit; it takes every piece.
* `Listing.textAt`, `Listing.text` — what is written for an offset, and for a
  whole listing.
* `Listing.walk` — the loop of a listing, with the offset at which it stops.
* `Listing.walk_taken` — the loop writes the line of each entry and stops at the
  end of the code.
* `Listing.oneText_of_reachable` — the ways agree on every reachable chunk.
-/

namespace Bytecode

/-! ## Sinks without a limit -/

/-- A sink without a limit that has taken a text. -/
def Sink.taken (t : Text) : Sink := ⟨none, String.ofList t⟩

theorem Sink.fresh_none : Sink.fresh none = Sink.taken [] := rfl

@[simp] theorem Sink.toList_text_taken (t : Text) : (Sink.taken t).text.toList = t :=
  String.toList_ofList

/-- A sink without a limit takes every piece. -/
@[simp] theorem Sink.write_taken (t piece : Text) :
    (Sink.taken t).write piece = .done (.taken (t ++ piece)) () [] := by
  simp [Sink.write, Sink.taken, Sink.admits, String.ofList_append]

theorem Sink.exists_eq_taken {s : Sink} (h : s.limit = none) : ∃ t, s = .taken t := by
  obtain ⟨limit, text⟩ := s
  cases h
  exact ⟨text.toList, by rw [Sink.taken, String.ofList_toList]⟩

theorem Outcome.map_andThen {ε σ ρ ρ' ρ'' : Type} (o : Outcome ε σ ρ)
    (next : ρ → σ → Outcome ε σ ρ') (f : ρ' → ρ'') :
    (o.andThen next).map f = o.andThen fun r s => (next r s).map f := by
  obtain ⟨reply, state, events⟩ := o
  cases reply <;> rfl

namespace Listing

/-! ## Writing one line -/

/-- What is written for an offset. -/
def textAt (c : Chunk) (offset : Nat) : Text :=
  (writeAt c offset (.fresh none)).state.text.toList

theorem advance_of_lt {offset : Nat} {d : Decoded} (h : offset + d.width < Size.bound) :
    ∃ next, advance offset d = .ok next ∧ next.val = offset + d.width := by
  unfold advance
  split
  · rename_i e he
    exact absurd h (Nat.not_lt.2 (Size.add_eq_error_iff.1 he).1)
  · rename_i next hnext
    exact ⟨_, rfl, (Size.add_eq_ok_iff.1 hnext).2⟩

theorem advance_of_le {offset : Nat} {d : Decoded} (h : Size.bound ≤ offset + d.width) :
    advance offset d = .error .add := by
  unfold advance
  split
  · rename_i e he
    rw [(Size.add_eq_error_iff.1 he).2]
  · rename_i next hnext
    exact absurd (Size.add_eq_ok_iff.1 hnext).1 (Nat.not_lt.2 h)

/-- A line is written whole, even if there is no offset behind it. -/
theorem state_writeAt_taken (c : Chunk) (offset : Nat) (t : Text) :
    (writeAt c offset (.taken t)).state = .taken (t ++ (line c offset ++ ['\n'])) := by
  simp only [writeAt, Outcome.andThen_done, Sink.write_taken]
  split <;> simp [Outcome.stop, Outcome.done]

/-- One line is written, and the reply is the offset behind what it shows. -/
theorem writeAt_taken (c : Chunk) (offset : Nat) (t : Text)
    (h : offset + (found c offset).width < Size.bound) :
    ∃ next events, next.val = offset + (found c offset).width ∧
      writeAt c offset (.taken t) =
        .done (.taken (t ++ (line c offset ++ ['\n']))) next events := by
  obtain ⟨next, hnext, hval⟩ := advance_of_lt h
  refine ⟨next, lineEvents c offset, hval, ?_⟩
  simp only [writeAt, Outcome.andThen_done, Sink.write_taken, hnext]
  simp [Outcome.done]

/-- What is written for an offset is its line with a newline. -/
theorem textAt_eq (c : Chunk) (offset : Nat) : textAt c offset = line c offset ++ ['\n'] := by
  rw [textAt, Sink.fresh_none, state_writeAt_taken, Sink.toList_text_taken, List.nil_append]

theorem count_newline_textAt (c : Chunk) (offset : Nat) : (textAt c offset).count '\n' = 1 := by
  rw [textAt_eq]
  exact Text.count_line (newline_not_mem_line c offset)

/-! ## What is found inside the code -/

theorem length_code (c : Chunk) : c.code.toList.length = c.size := rfl

/-- What is found at an offset is decoded from the code that is left there. -/
theorem found_eq (c : Chunk) (offset : Nat) :
    found c offset = Instruction.decode (c.code.toList.drop offset) :=
  Instruction.decodeAt_eq _ _

/-- An entry shows what is found at its offset. -/
theorem result_eq_found {c : Chunk} {e : Entry} (he : e ∈ c.entries) :
    e.result = found c e.offset := by
  rw [found_eq]
  exact (Instruction.result_eq_decode_drop he).2

/-- The entries of a chunk stand end to end. -/
theorem tiles_entries (c : Chunk) : Tiles 0 c.entries c.size := by
  have h := Instruction.tiles_entriesFrom 0 c.code.toList
  rwa [Nat.zero_add, length_code] at h

theorem offset_lt_size {c : Chunk} {e : Entry} (he : e ∈ c.entries) : e.offset < c.size := by
  have hwithin := (tiles_entries c).offset_add_width_le he
  have hpos := e.result.width_pos
  omega

/-- What is found at an offset ends inside the code, or is skipped beyond it. -/
theorem width_found_le (c : Chunk) (offset : Nat) :
    offset + (found c offset).width ≤ max c.size (offset + 1) := by
  rw [found_eq]
  cases hdrop : c.code.toList.drop offset with
  | nil => exact Nat.le_max_right _ _
  | cons b rest =>
    have hwidth := Instruction.width_decode_le b rest
    have hlen := congrArg List.length hdrop
    rw [List.length_drop, length_code] at hlen
    have hpos : 0 < (b :: rest).length := List.length_pos_of_ne_nil (List.cons_ne_nil b rest)
    omega

/-! ## The loop of a listing -/

/-- The loop that writes the lines from an offset to the end of the code; the reply is the offset
at which it stops. -/
def walk (c : Chunk) (offset : Nat) (s : Sink) : Outcome WriteFault Sink Nat :=
  if offset < c.size then
    (writeAt c offset s).andThen fun next s => walk c next.val s
  else .done s offset []
termination_by c.size - offset
decreasing_by
  have := next.property
  omega

/-- The loop of a listing is the walk without the offset at which it stops. -/
theorem writeFrom_eq_walk (c : Chunk) (offset : Nat) (s : Sink) :
    writeFrom c offset s = (walk c offset s).map fun _ => () := by
  fun_induction walk c offset s with
  | case1 offset s h ih =>
    rw [writeFrom_of_lt s h, Outcome.map_andThen]
    congr
    funext next s
    exact ih next s
  | case2 offset s h =>
    rw [writeFrom_of_le s (Nat.le_of_not_lt h)]
    rfl

/-- The loop writes the line of each entry, and stops at the end of the code. -/
theorem walk_taken {c : Chunk} (hc : c.size < Size.bound) {offset : Nat} {bytes : List UInt8}
    (hbytes : c.code.toList.drop offset = bytes) (hoffset : offset ≤ c.size) (t : Text) :
    ∃ events, walk c offset (.taken t) =
      .done (.taken (t ++ Text.ofLines
        ((Instruction.entriesFrom offset bytes).map fun e => line c e.offset))) c.size events := by
  fun_induction Instruction.entriesFrom offset bytes generalizing t with
  | case1 offset =>
    have hend : offset = c.size := by
      have := List.drop_eq_nil_iff.1 hbytes
      rw [length_code] at this
      omega
    refine ⟨[], ?_⟩
    rw [walk, if_neg (by omega), hend]
    simp
  | case2 offset b rest result ih =>
    have hlt : offset < c.size := by
      have := congrArg List.length hbytes
      rw [List.length_drop, length_code, List.length_cons] at this
      omega
    have hresult : found c offset = result := by rw [found_eq, hbytes]
    have hle := width_found_le c offset
    rw [hresult] at hle
    obtain ⟨next, events, hnext, hline⟩ := writeAt_taken c offset t
      (by rw [hresult]; omega)
    rw [hresult] at hnext
    -- the loop goes on where the walk over the code does
    have hdrop : c.code.toList.drop (offset + result.width) = (b :: rest).drop result.width := by
      rw [← hbytes, List.drop_drop]
    obtain ⟨more, hmore⟩ := ih hdrop (by omega) (t ++ (line c offset ++ ['\n']))
    refine ⟨events ++ more, ?_⟩
    rw [walk, if_pos hlt, hline, Outcome.andThen_done, hnext, hmore]
    simp [Outcome.done]

/-! ## The whole listing -/

/-- The text of a listing: all that writing it puts out. -/
def text (l : Listing) : Text := (Listing.write l (.fresh none)).state.text.toList

/-- The header of a listing. -/
def header : Option Text → Text
  | none => []
  | some name => "== ".toList ++ name ++ " ==\n".toList

/-- The lines of a listing, without their ends. -/
def entryLines (c : Chunk) : List Text := c.entries.map fun e => line c e.offset

theorem ofLines_entryLines (c : Chunk) :
    Text.ofLines (entryLines c) = c.entries.flatMap fun e => textAt c e.offset := by
  simp [Text.ofLines, entryLines, List.flatMap_map, textAt_eq]

theorem newline_not_mem_entryLines (c : Chunk) : ∀ l ∈ entryLines c, '\n' ∉ l := by
  intro l hl
  obtain ⟨e, -, rfl⟩ := List.mem_map.1 hl
  exact newline_not_mem_line c e.offset

theorem writeHeader_taken (name : Text) :
    writeHeader name (.taken []) = .done (.taken (header (some name))) () [] := by
  simp only [writeHeader, Sink.write_taken, Outcome.andThen_done, List.nil_append,
    List.append_assoc, header]

theorem walk_start {c : Chunk} (hc : c.size < Size.bound) (t : Text) :
    ∃ events, walk c 0 (.taken t) =
      .done (.taken (t ++ Text.ofLines (entryLines c))) c.size events :=
  walk_taken hc List.drop_zero (Nat.zero_le _) t

theorem write_taken {c : Chunk} (hc : c.size < Size.bound) (name : Option Text) :
    ∃ events, Listing.write ⟨c, name⟩ (.fresh none) =
      .done (.taken (header name ++ Text.ofLines (entryLines c))) () events := by
  rw [Sink.fresh_none]
  cases name with
  | none =>
    obtain ⟨events, hwalk⟩ := walk_start hc []
    exact ⟨events, by rw [write, writeFrom_eq_walk, hwalk]; rfl⟩
  | some name =>
    obtain ⟨events, hwalk⟩ := walk_start hc (header (some name))
    refine ⟨events, ?_⟩
    show (writeHeader name (.taken [])).andThen (fun _ s => writeFrom c 0 s) = _
    rw [writeHeader_taken, Outcome.andThen_done, writeFrom_eq_walk, hwalk]
    rfl

/-- A listing is its header and the lines of the entries. -/
theorem text_eq {c : Chunk} (hc : c.size < Size.bound) (name : Option Text) :
    text ⟨c, name⟩ = header name ++ Text.ofLines (entryLines c) := by
  obtain ⟨events, hwrite⟩ := write_taken hc name
  rw [text, hwrite]
  exact Sink.toList_text_taken _

/-! ## The agreement -/

/-- All ways of listing a chunk lead to one text. -/
structure OneText (c : Chunk) : Prop where
  /-- A listing is its header and, for each entry in order, what is written for its offset. -/
  listing : ∀ name, (Listing.write ⟨c, name⟩ (.fresh none)).reply = .ok () ∧
    text ⟨c, name⟩ = header name ++ c.entries.flatMap fun e => textAt c e.offset
  /-- The line of an entry leads to the next entry, and that of the last one to the end. -/
  next : ∀ k e, c.entries[k]? = some e → ∃ next,
    (writeAt c e.offset (.fresh none)).reply = .ok next ∧
      next.val = (c.entries[k + 1]?.map Entry.offset).getD c.size
  /-- The loop of a listing stops at the end of the code. -/
  stop : ∀ s : Sink, s.limit = none → writeFrom c 0 s = (walk c 0 s).map (fun _ => ()) ∧
    (walk c 0 s).reply = .ok c.size
  print : ∀ name, (print c name).reply = .ok () ∧
    (print c name).state.text.toList = text ⟨c, some name⟩
  printAt : ∀ offset, offset < Size.bound - 1 → ∃ next,
    (writeAt c offset (.fresh none)).reply = .ok next ∧
      (printAt c offset).reply = .ok next.val ∧
      (printAt c offset).state.text.toList = textAt c offset
  newline : ∀ e ∈ c.entries, (textAt c e.offset).count '\n' = 1
  /-- Without a header there are as many lines as entries, and each is ended. -/
  lines : (Text.lines (text ⟨c, none⟩)).length = c.entries.length ∧
    (text ⟨c, none⟩).count '\n' = c.entries.length

theorem printAt_eq {c : Chunk} (hc : c.size < Size.bound) {offset : Nat}
    (h : offset < Size.bound - 1) : ∃ next events,
      writeAt c offset (.fresh none) = .done (.taken (textAt c offset)) next events ∧
      printAt c offset = .done (.taken (textAt c offset)) next.val events := by
  have hwidth := width_found_le c offset
  obtain ⟨next, events, -, hline⟩ := writeAt_taken c offset [] (by omega)
  rw [List.nil_append, ← textAt_eq, ← Sink.fresh_none] at hline
  have hsucc : Size.add offset 1 = .ok (offset + 1) := Size.add_eq_ok_iff.2 ⟨by omega, rfl⟩
  refine ⟨next, events, hline, ?_⟩
  rw [printAt, hline, hsucc]
  rfl

/-- **All ways of listing a reachable chunk agree**, whatever its bytes are: the walk over its code,
the loop of the listing, and single lines. -/
theorem oneText_of_reachable {c : Chunk} (h : c.Reachable) : OneText c := by
  have hc := h.size_lt_bound
  constructor
  case listing =>
    intro name
    rw [← ofLines_entryLines]
    refine ⟨?_, text_eq hc name⟩
    obtain ⟨events, hwrite⟩ := write_taken hc name
    rw [hwrite]
    rfl
  case next =>
    intro k e he
    have hmem : e ∈ c.entries := List.mem_of_getElem? he
    have hwithin := (tiles_entries c).offset_add_width_le hmem
    rw [result_eq_found hmem] at hwithin
    obtain ⟨next, events, hnext, hline⟩ := writeAt_taken c e.offset []
      (Nat.lt_of_le_of_lt hwithin hc)
    refine ⟨next, ?_, ?_⟩
    · rw [Sink.fresh_none, hline]
      rfl
    · rw [(tiles_entries c).getD_offset_succ he, result_eq_found hmem, hnext]
  case stop =>
    intro s hs
    obtain ⟨t, rfl⟩ := Sink.exists_eq_taken hs
    obtain ⟨events, hwalk⟩ := walk_start hc t
    exact ⟨writeFrom_eq_walk c 0 _, by rw [hwalk]; rfl⟩
  case print =>
    intro name
    obtain ⟨events, hwrite⟩ := write_taken hc (some name)
    refine ⟨?_, rfl⟩
    rw [Listing.print, hwrite]
    rfl
  case printAt =>
    intro offset hoffset
    obtain ⟨next, events, hline, hprint⟩ := printAt_eq hc hoffset
    refine ⟨next, ?_, ?_, ?_⟩
    · rw [hline]
      rfl
    · rw [hprint]
      rfl
    · rw [hprint]
      exact Sink.toList_text_taken _
  case newline => exact fun e _ => count_newline_textAt c e.offset
  case lines =>
    have hlines := newline_not_mem_entryLines c
    have hlength : (entryLines c).length = c.entries.length := List.length_map _
    rw [text_eq hc, header, List.nil_append, Text.lines_ofLines hlines, Text.count_ofLines hlines]
    exact ⟨hlength, hlength⟩

/-- Constants that no pool holds, a byte that is no opcode and an operand that is cut off. -/
theorem oneText_of_malformed :
    (Chunk.empty.after [.write [0, 5, 9, 1] 7, .writeOpcode .constant (-8)]).Reachable ∧
      OneText (Chunk.empty.after [.write [0, 5, 9, 1] 7, .writeOpcode .constant (-8)]) :=
  ⟨Chunk.reachable_empty.after _, oneText_of_reachable (Chunk.reachable_empty.after _)⟩

end Listing

end Bytecode
