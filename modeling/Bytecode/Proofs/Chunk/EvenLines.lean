import Bytecode.Proofs.Chunk.Program
import Bytecode.Proofs.Chunk.Reachable
import Bytecode.Proofs.Instruction.Concatenation

/-!
# Entries of one source line each

An instruction is written with one source line for all of its bytes.  So in a
chunk to which nothing but instructions has been written, every entry comes from
one line, even where the last instruction did not fit.

* `Chunk.EvenlyLined` — every entry of the chunk comes from one line.
* `Chunk.Holds.evenlyLined` — this is so where the code is the beginning of a
  program.
* `Chunk.exists_program_after` — the code is the beginning of a program where no
  other command has written to it.
-/

namespace Bytecode

/-- Whether a command writes bytes that need not make up an instruction. -/
def Session.ChunkCommand.writesBytes : Session.ChunkCommand → Bool
  | .write .. | .writeOpcode .. => true
  | _ => false

theorem Decoded.width_of_isCutOff {d : Decoded} (h : d.isCutOff = true) : d.width = 1 := by
  match d with
  | .error (.missingOperand _) => rfl
  | .ok _ => simp [isCutOff] at h
  | .error (.unknownOpcode _) => simp [isCutOff] at h
  | .error .endOfCode => simp [isCutOff] at h

namespace Chunk

/-- All bytes of an entry come from one source line, whichever the entry is. -/
def EvenlyLined (c : Chunk) : Prop :=
  ∀ e ∈ c.entries, ∀ i < e.result.width, c.lineAt (e.offset + i) = c.lineAt e.offset

instance (c : Chunk) : Decidable c.EvenlyLined :=
  inferInstanceAs (Decidable
    (∀ e ∈ c.entries, ∀ i < e.result.width, c.lineAt (e.offset + i) = c.lineAt e.offset))

variable {c : Chunk}

/-- The beginning of a program is evenly lined. -/
theorem Holds.evenlyLined {p : Program} {n : Nat} (h : Holds c (p.written.take n)) :
    c.EvenlyLined := by
  intro e he i hi
  have hcode : c.code.toList = p.code.take n := by
    rw [h.toList_code, List.map_take, p.map_fst_written]
  have hlen : c.code.toList.length ≤ n := by
    rw [hcode]
    exact List.length_take_le n p.code
  have hwithin := (Instruction.tiles_entriesFrom 0 c.code.toList).offset_add_width_le he
  rw [entries, hcode] at he
  rcases Instruction.mem_entries_of_mem_entries_take he with he | hcut
  · -- the entry is an instruction of the program
    obtain ⟨k, hk⟩ := List.mem_iff_getElem?.1 he
    rw [Instruction.entries, p.getElem?_entriesFrom] at hk
    obtain ⟨s, hs, rfl⟩ := Option.map_eq_some_iff.1 hk
    dsimp only [Decoded.width] at hwithin hi
    have hline : ∀ j < s.1.width, c.lineAt (0 + p.offset k + j) = some s.2 := by
      intro j hj
      have hlt : 0 + p.offset k + j < n := by
        omega
      rw [h.lineAt_eq, List.getElem?_take_of_lt hlt, Nat.zero_add]
      exact Program.getElem?_written hs hj
    have hfirst := hline 0 (by omega)
    rw [Nat.add_zero] at hfirst
    rw [hline i hi, hfirst]
  · rw [Decoded.width_of_isCutOff hcut] at hi
    have hzero : i = 0 := by omega
    rw [hzero, Nat.add_zero]

theorem exists_written_eq {command : Session.ChunkCommand} (h : command.writesBytes = false) :
    ∃ p : Program, written command = p.written := by
  cases command with
  | write bytes line => simp [Session.ChunkCommand.writesBytes] at h
  | writeOpcode op line => simp [Session.ChunkCommand.writesBytes] at h
  | writeInstruction i line => exact ⟨[(i, line)], by simp [written, Program.written]⟩
  | _ => exact ⟨[], rfl⟩

theorem take_take_append {α : Type} (l m : List α) (n : Nat) :
    (l.take n ++ m).take n = (l ++ m).take n := by
  simp only [List.take_append, List.take_take, List.length_take, Nat.min_self]
  congr 2
  omega

/-- The code of a chunk stays the beginning of a program as long as only instructions are written
to it. -/
theorem exists_program_after {p : Program} (hc : Holds c (p.written.take Buffer.sizeLimit))
    {commands : List Session.ChunkCommand}
    (h : ∀ command ∈ commands, command.writesBytes = false) :
    ∃ q : Program, Holds (c.after commands) (q.written.take Buffer.sizeLimit) := by
  induction commands generalizing c p with
  | nil => exact ⟨p, hc⟩
  | cons command commands ih =>
    obtain ⟨q, hq⟩ := exists_written_eq (h command List.mem_cons_self)
    have hact := refines_histories.act command c _ hc
    have htake : histories.act command (p.written.take Buffer.sizeLimit) =
        (Program.written (p ++ q)).take Buffer.sizeLimit := by
      show (p.written.take Buffer.sizeLimit ++ written command).take Buffer.sizeLimit = _
      rw [hq, Program.written_append, take_take_append]
    rw [htake] at hact
    exact ih hact fun d hd => h d (List.mem_cons_of_mem _ hd)

/-- A chunk to which nothing but instructions has been written is evenly lined. -/
theorem evenlyLined_after {commands : List Session.ChunkCommand}
    (h : ∀ command ∈ commands, command.writesBytes = false) :
    (empty.after commands).EvenlyLined := by
  have hempty : Holds empty (Program.written [] |>.take Buffer.sizeLimit) := holds_empty
  obtain ⟨q, hq⟩ := exists_program_after hempty h
  exact hq.evenlyLined

end Chunk

end Bytecode
