import Bytecode.Proofs.Instruction.Concatenation
import Bytecode.Proofs.Listing.Traversal

/-!
# Listings of code that goes on

When more is written to a chunk, its listing goes on.  The line of an entry looks
at the bytes and the lines up to its own and at the constants, and writing changes
none of them; only an operand that was cut off is found later.

* `Chunk.Extends` — a chunk to which more has been written; every command that
  writes leads to one (`extends_act`), and so do any number of them
  (`extends_after`).
* `Listing.line_of_extends` — the lines of the entries that both chunks have are
  the same.
* `Listing.settledLines_isPrefix` — the listing begins with the lines of the settled
  entries.
* `Listing.prefix_of_writes` — what is found in a concatenation, and how a listing
  goes on.
-/

namespace Bytecode

/-- Whether a command writes code. -/
def Session.ChunkCommand.isWrite : Session.ChunkCommand → Bool
  | .write .. | .writeOpcode .. | .writeInstruction .. => true
  | _ => false

/-! ## Chunks to which more has been written -/

namespace Chunk

/-- The code and the lines of `d` begin with those of `c`, and the constants are the same. -/
structure Extends (c d : Chunk) : Prop where
  code : c.code.toList <+: d.code.toList
  lineAt : ∀ offset, offset < c.size → d.lineAt offset = c.lineAt offset
  constants : d.constants = c.constants

variable {c d : Chunk} {history : List (UInt8 × Int32)}

theorem extends_refl (c : Chunk) : Extends c c :=
  ⟨List.prefix_refl _, fun _ _ => rfl, rfl⟩

theorem Extends.size_le (h : Extends c d) : c.size ≤ d.size := h.code.length_le

theorem Extends.trans {e : Chunk} (h : Extends c d) (h' : Extends d e) : Extends c e where
  code := h.code.trans h'.code
  lineAt offset hlt := by
    rw [h'.lineAt offset (Nat.lt_of_lt_of_le hlt h.size_le), h.lineAt offset hlt]
  constants := h'.constants.trans h.constants

theorem Holds.extends {more : List (UInt8 × Int32)} (hc : Holds c history)
    (hd : Holds d (history ++ more)) (hconstants : d.constants = c.constants) : Extends c d where
  code := by
    rw [hc.toList_code, hd.toList_code, List.map_append]
    exact List.prefix_append _ _
  lineAt offset hlt := by
    rw [hc.size_eq] at hlt
    rw [hd.lineAt_eq, hc.lineAt_eq, List.getElem?_append_left hlt]
  constants := hconstants

theorem constants_act {command : Session.ChunkCommand} (h : command.isWrite = true) (c : Chunk) :
    (Session.actOnChunk command c).state.constants = c.constants := by
  cases command with
  | write bytes line => exact c.constants_writeAll bytes line
  | writeOpcode op line => exact c.constants_write op.byte line
  | writeInstruction i line => exact c.constants_writeAll i.encode line
  | _ => cases h

/-- Writing adds to the code and the lines. -/
theorem extends_act (hc : c.Reachable) {command : Session.ChunkCommand}
    (h : command.isWrite = true) : Extends c (Session.actOnChunk command c).state := by
  obtain ⟨history, hholds⟩ := hc.exists_holds
  have hact := refines_histories.act command c history hholds
  have htake : histories.act command history =
      history ++ (written command).take (Buffer.sizeLimit - history.length) := by
    show (history ++ written command).take Buffer.sizeLimit = _
    rw [List.take_append, List.take_of_length_le hholds.length_le]
  rw [htake] at hact
  exact hholds.extends hact (constants_act h c)

theorem extends_after (hc : c.Reachable) {commands : List Session.ChunkCommand}
    (h : ∀ command ∈ commands, command.isWrite = true) : Extends c (c.after commands) := by
  induction commands generalizing c with
  | nil => exact extends_refl c
  | cons command commands ih =>
    have hfirst := extends_act hc (h command List.mem_cons_self)
    have hrest := ih (hc.act command) fun d hd => h d (List.mem_cons_of_mem _ hd)
    rw [after_cons]
    exact hfirst.trans hrest

end Chunk

namespace Listing

open Chunk (Extends)

variable {c d : Chunk}

/-! ## The lines that stay -/

/-- The line of an entry that both chunks have is the same. -/
theorem line_of_extends (h : Extends c d) {e : Entry} (hc : e ∈ c.entries) (hd : e ∈ d.entries) :
    line d e.offset = line c e.offset := by
  have hlt := offset_lt_size hc
  have hcolumn : lineColumn d e.offset = lineColumn c e.offset :=
    lineColumn_congr (h.lineAt _ hlt) (h.lineAt _ (by omega))
  have hbody : body d e.result = body c e.result := by
    apply body_congr
    intro id _
    rw [Chunk.lookup, Chunk.lookup, h.constants]
  rw [line_eq, line_eq, columns, columns, hcolumn, ← result_eq_found hc, ← result_eq_found hd,
    hbody]

/-- The lines of the settled entries. -/
def settledLines (c : Chunk) : List Text :=
  (Instruction.settled c.entries).map fun e => line c e.offset

theorem settledLines_isPrefix (h : Extends c d) : settledLines c <+: entryLines d := by
  obtain ⟨more, hmore⟩ := h.code
  have hbegins : Instruction.settled c.entries <+: d.entries := by
    rw [Chunk.entries, Chunk.entries, ← hmore]
    exact Instruction.settled_prefix _ _
  have hsub : Instruction.settled c.entries <+: c.entries := by
    have := Instruction.settled_prefix c.code.toList []
    rwa [List.append_nil] at this
  have hsame : settledLines c = (Instruction.settled c.entries).map fun e => line d e.offset := by
    refine List.map_congr_left ?_
    intro e he
    exact (line_of_extends h (hsub.subset he) (hbegins.subset he)).symm
  rw [hsame]
  exact hbegins.map _

theorem ofLines_settledLines (c : Chunk) :
    Text.ofLines (settledLines c) =
      if Instruction.endsCutOff c.entries then Text.withoutLastLine (Text.ofLines (entryLines c))
      else Text.ofLines (entryLines c) := by
  rw [settledLines, Instruction.settled]
  split
  · rw [Text.withoutLastLine_ofLines (newline_not_mem_entryLines c), entryLines,
      List.map_dropLast]
  · rfl

/-- **Code that goes on.**  The entries of a concatenation are those of its parts, the second ones
further on; only an operand that is cut off at the seam is found in the second part.  So a listing
goes on when more is written: the old one is how the new one begins, up to a line whose operand is
cut off. -/
theorem prefix_of_writes :
    (∀ A B : List UInt8, Instruction.endsCutOff (Instruction.entries A) = false →
      Instruction.entries (A ++ B) =
        Instruction.entries A ++ (Instruction.entries B).map (.shift A.length)) ∧
    (∀ (A : List UInt8) (b : UInt8) (B : List UInt8),
      Instruction.endsCutOff (Instruction.entries A) = true →
      Instruction.entries (A ++ b :: B) = (Instruction.entries A).dropLast ++
        ⟨A.length - 1, .ok (.constant b)⟩ ::
          (Instruction.entries B).map (.shift (A.length + 1))) ∧
    ∀ c : Chunk, c.Reachable → ∀ commands : List Session.ChunkCommand,
      (∀ command ∈ commands, command.isWrite = true) →
      (c.after commands).Reachable ∧ (c.after commands).constants = c.constants ∧
      (Instruction.endsCutOff c.entries = false →
        text ⟨c, none⟩ <+: text ⟨c.after commands, none⟩) ∧
      (Instruction.endsCutOff c.entries = true →
        Text.withoutLastLine (text ⟨c, none⟩) <+: text ⟨c.after commands, none⟩) := by
  refine ⟨fun _ B h => Instruction.entries_append h B,
    fun _ b B h => Instruction.entries_append_cons h b B, ?_⟩
  intro c hc commands hwrites
  have hextends := Chunk.extends_after hc hwrites
  have hafter := hc.after commands
  have hbegins := Text.ofLines_prefix (settledLines_isPrefix hextends)
  have htext : text ⟨c, none⟩ = Text.ofLines (entryLines c) :=
    text_eq hc.size_lt_bound none
  have htext' : text ⟨c.after commands, none⟩ = Text.ofLines (entryLines (c.after commands)) :=
    text_eq hafter.size_lt_bound none
  rw [htext, htext']
  refine ⟨hafter, hextends.constants, fun hcut => ?_, fun hcut => ?_⟩
  · rwa [ofLines_settledLines, if_neg (Bool.eq_false_iff.1 hcut)] at hbegins
  · rwa [ofLines_settledLines, if_pos hcut] at hbegins

/-- A return, and an opcode whose operand is written later. -/
theorem prefix_of_writes_of_operand :
    Instruction.entries ([1] ++ [0, 4, 1]) =
      Instruction.entries [1] ++ (Instruction.entries [0, 4, 1]).map (.shift 1) ∧
    Instruction.entries ([1, 0] ++ 4 :: [1]) = (Instruction.entries [1, 0]).dropLast ++
      ⟨1, .ok (.constant 4)⟩ :: (Instruction.entries [1]).map (.shift 3) ∧
    text ⟨Chunk.empty.after [.write [1] 3], none⟩ <+:
      text ⟨(Chunk.empty.after [.write [1] 3]).after [.write [0] 3], none⟩ ∧
    Text.withoutLastLine (text ⟨Chunk.empty.after [.write [1, 0] 3], none⟩) <+:
      text ⟨(Chunk.empty.after [.write [1, 0] 3]).after [.write [4, 1] 3], none⟩ := by
  obtain ⟨happend, hoperand, hlisting⟩ := prefix_of_writes
  obtain ⟨-, -, hwhole, -⟩ := hlisting _ (Chunk.reachable_empty.after [.write [1] 3])
    [.write [0] 3] (by decide)
  obtain ⟨-, -, -, hcut⟩ := hlisting _ (Chunk.reachable_empty.after [.write [1, 0] 3])
    [.write [4, 1] 3] (by decide)
  exact ⟨happend [1] [0, 4, 1] (by decide +kernel), hoperand [1, 0] 4 [1] (by decide +kernel),
    hwhole (by decide +kernel), hcut (by decide +kernel)⟩

end Listing

end Bytecode
