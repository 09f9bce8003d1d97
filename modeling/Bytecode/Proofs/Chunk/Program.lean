import Bytecode.Proofs.Chunk.Operations
import Bytecode.Proofs.Instruction.Tiling

/-!
# Programs written to a chunk are read back

A program is a list of instructions with their source lines.  Written to an
empty chunk one after the other, its instructions are what the walk over the
code finds.

* `Program.offset` — where an instruction of a program begins: behind those
  before it.
* `Chunk.writeProgram` — writes all instructions of a program; this is done
  where there is room for their bytes (`writeProgram_holding`), and stops
  elsewhere (`writeProgram_holding_of_lt`).
* `Program.getElem?_entriesFrom` — the walk over the code of a program finds
  its instructions, whatever their operands are.
* `Program.getElem?_written` — the bytes of an instruction have its line.
* `Chunk.roundTrip_writeProgram` — the round trip.
-/

namespace Bytecode

/-- Instructions with the source lines that they come from. -/
abbrev Program := List (Instruction × Int32)

namespace Program

/-- The bytes of a program with their lines. -/
def written (p : Program) : List (UInt8 × Int32) := p.flatMap fun s => s.1.encode.map (·, s.2)

/-- The bytes of a program. -/
def code (p : Program) : List UInt8 := p.flatMap fun s => s.1.encode

/-- The number of bytes of a program: the sum of those of its instructions. -/
def size : Program → Nat
  | [] => 0
  | s :: rest => s.1.width + size rest

/-- The offset of an instruction: the number of bytes of those before it. -/
def offset (p : Program) (k : Nat) : Nat := size (p.take k)

@[simp] theorem written_cons (s : Instruction × Int32) (p : Program) :
    written (s :: p) = s.1.encode.map (·, s.2) ++ written p := rfl

theorem written_append (p q : Program) : written (p ++ q) = written p ++ written q :=
  List.flatMap_append

@[simp] theorem code_cons (s : Instruction × Int32) (p : Program) :
    code (s :: p) = s.1.encode ++ code p := rfl

@[simp] theorem size_cons (s : Instruction × Int32) (p : Program) :
    size (s :: p) = s.1.width + size p := rfl

@[simp] theorem offset_zero (p : Program) : p.offset 0 = 0 := rfl

@[simp] theorem offset_cons_succ (s : Instruction × Int32) (p : Program) (k : Nat) :
    offset (s :: p) (k + 1) = s.1.width + offset p k := by
  rw [offset, List.take_succ_cons, size_cons, offset]

theorem map_fst_written (p : Program) : p.written.map Prod.fst = p.code := by
  induction p with
  | nil => rfl
  | cons s p ih => simp [ih, Function.comp_def]

/-! ## The walk over the code of a program -/

/-- The walk finds an instruction where its encoding begins, and goes on behind it. -/
theorem entriesFrom_encode_append (offset : Nat) (i : Instruction) (rest : List UInt8) :
    Instruction.entriesFrom offset (i.encode ++ rest) =
      ⟨offset, .ok i⟩ :: Instruction.entriesFrom (offset + i.width) rest := by
  have hne : i.encode ++ rest ≠ [] := by
    intro h
    have hlen := congrArg List.length (List.append_eq_nil_iff.1 h).1
    have hpos : 0 < i.width := Decoded.width_pos (.ok i)
    rw [i.length_encode, List.length_nil] at hlen
    omega
  obtain ⟨b, tail, hcons⟩ := List.exists_cons_of_ne_nil hne
  have hd : Instruction.decode (b :: tail) = .ok i := by
    rw [← hcons]
    exact Instruction.decode_encode i rest
  rw [hcons, Instruction.entriesFrom_cons, hd, ← hcons, Decoded.width, ← i.length_encode,
    List.drop_left]

/-- The entries of the code of a program are its instructions. -/
theorem getElem?_entriesFrom (start : Nat) (p : Program) (k : Nat) :
    (Instruction.entriesFrom start p.code)[k]? =
      p[k]?.map fun s => ⟨start + p.offset k, .ok s.1⟩ := by
  induction p generalizing start k with
  | nil =>
    rw [code, List.flatMap_nil, Instruction.entriesFrom_nil]
    rfl
  | cons s p ih =>
    rw [code_cons, entriesFrom_encode_append]
    cases k with
    | zero => rfl
    | succ k =>
      rw [List.getElem?_cons_succ, ih, List.getElem?_cons_succ, offset_cons_succ, Nat.add_assoc]

/-- Every byte of an instruction is written with its line. -/
theorem getElem?_written {p : Program} {k : Nat} {s : Instruction × Int32} (h : p[k]? = some s)
    {j : Nat} (hj : j < s.1.width) :
    p.written[p.offset k + j]?.map Prod.snd = some s.2 := by
  induction p generalizing k with
  | nil => cases h
  | cons s' p ih =>
    rw [written_cons]
    cases k with
    | zero =>
      cases h
      have hlt : j < (s.1.encode.map (·, s.2)).length := by
        rwa [List.length_map, Instruction.length_encode]
      rw [offset_zero, Nat.zero_add, List.getElem?_append_left hlt, List.getElem?_eq_getElem hlt]
      simp
    | succ k =>
      -- the byte lies behind those of the first instruction
      have hlen : (s'.1.encode.map (·, s'.2)).length = s'.1.width := by
        rw [List.length_map, Instruction.length_encode]
      rw [offset_cons_succ, Nat.add_assoc, List.getElem?_append_right (by omega), hlen,
        Nat.add_sub_cancel_left]
      exact ih h

end Program

/-! ## Writing a program -/

namespace Chunk

/-- Adds the bytes of the instructions of a program, one after the other. -/
def writeProgram (c : Chunk) : Program → Outcome Overflow Chunk Unit
  | [] => .done c () []
  | s :: rest => (c.writeInstruction s.1 s.2).andThen fun _ c => c.writeProgram rest

variable {written : List (UInt8 × Int32)} (constants : Pool)

theorem length_append_encode (i : Instruction) (line : Int32) :
    (written ++ i.encode.map (·, line)).length = written.length + i.width := by
  rw [List.length_append, List.length_map, i.length_encode]

theorem writeInstruction_holding (i : Instruction) (line : Int32)
    (h : written.length + i.width ≤ Buffer.sizeLimit) :
    ∃ events, (holding written constants).writeInstruction i line =
      .done (holding (written ++ i.encode.map (·, line)) constants) () events := by
  have hw : written.length ≤ Buffer.sizeLimit := by omega
  have hreply := reply_writeAll_holding constants i.encode line hw
  have hstate := state_writeAll_holding constants i.encode line hw
  rw [i.length_encode, if_pos h] at hreply
  rw [List.take_of_length_le (by simpa [i.length_encode] using h)] at hstate
  exact ⟨_, hstate ▸ Outcome.eq_done hreply⟩

/-- A program is written whole where there is room for it. -/
theorem writeProgram_holding (p : Program) (h : written.length + p.size ≤ Buffer.sizeLimit) :
    ∃ events, (holding written constants).writeProgram p =
      .done (holding (written ++ p.written) constants) () events := by
  induction p generalizing written with
  | nil =>
    refine ⟨[], ?_⟩
    rw [Program.written, List.flatMap_nil, List.append_nil]
    rfl
  | cons s p ih =>
    rw [Program.size_cons] at h
    have hroom : written.length + s.1.width ≤ Buffer.sizeLimit := by omega
    obtain ⟨first, hfirst⟩ := writeInstruction_holding constants s.1 s.2 hroom
    have hnext :
        (written ++ s.1.encode.map (·, s.2)).length + Program.size p ≤ Buffer.sizeLimit := by
      rwa [length_append_encode, Nat.add_assoc]
    obtain ⟨rest, hrest⟩ := ih hnext
    refine ⟨first ++ rest, ?_⟩
    rw [writeProgram, hfirst, Outcome.andThen_done, hrest, Program.written_cons, List.append_assoc]
    rfl

/-- A program that is too large stops on the way. -/
theorem writeProgram_holding_of_lt (p : Program) (hw : written.length ≤ Buffer.sizeLimit)
    (h : Buffer.sizeLimit < written.length + p.size) :
    ∃ c events, (holding written constants).writeProgram p = .stop c .multiply events := by
  induction p generalizing written with
  | nil => exact absurd hw (Nat.not_le.2 h)
  | cons s p ih =>
    rw [writeProgram]
    by_cases hroom : written.length + s.1.width ≤ Buffer.sizeLimit
    · obtain ⟨first, hfirst⟩ := writeInstruction_holding constants s.1 s.2 hroom
      rw [Program.size_cons, ← Nat.add_assoc, ← length_append_encode s.1 s.2] at h
      obtain ⟨c, rest, hrest⟩ := ih (by rwa [length_append_encode]) h
      refine ⟨c, first ++ rest, ?_⟩
      rw [hfirst, Outcome.andThen_done, hrest]
      rfl
    · have hreply : ((holding written constants).writeInstruction s.1 s.2).reply =
          .error .multiply := by
        rw [writeInstruction, reply_writeAll_holding constants s.1.encode s.2 hw, s.1.length_encode,
          if_neg hroom]
      exact ⟨_, _, Outcome.andThen_of_error _ hreply⟩

/-- **The round trip.**  An instruction is found iff the bytes start with its encoding; and every
program for which there is room, written to an empty chunk, is found there again: its
instructions, each at its offset, and its lines, each at every byte of its instruction.  Only a
program of more bytes than a buffer takes stops on the way. -/
theorem roundTrip_writeProgram :
    (∀ bytes i, Instruction.decode bytes = .ok i ↔ i.encode <+: bytes) ∧
    ∀ p : Program,
      if p.size ≤ Buffer.sizeLimit then
        ∃ c events, empty.writeProgram p = .done c () events ∧
          c.code.toList = p.flatMap (fun s => s.1.encode) ∧
          (∀ k, c.entries[k]? = p[k]?.map fun s => (⟨p.offset k, .ok s.1⟩ : Entry)) ∧
          ∀ k s, p[k]? = some s → ∀ j < s.1.width, c.lineAt (p.offset k + j) = some s.2
      else ∃ c events, empty.writeProgram p = .stop c .multiply events := by
  refine ⟨fun _ _ => Instruction.decode_eq_ok_iff, fun p => ?_⟩
  have hempty : empty = holding [] .empty := rfl
  split
  case isFalse h =>
    rw [hempty]
    exact writeProgram_holding_of_lt _ p (Nat.zero_le _) (by simpa using h)
  case isTrue h =>
    have hroom : ([] : List (UInt8 × Int32)).length + p.size ≤ Buffer.sizeLimit := by simpa using h
    obtain ⟨events, hp⟩ := writeProgram_holding .empty p hroom
    refine ⟨_, events, hp, ?_, fun k => ?_, fun k s hs j hj => ?_⟩
    · exact Program.map_fst_written p
    · rw [entries, Instruction.entries, holding, Buffer.toList_ofList, List.nil_append,
        Program.map_fst_written, Program.getElem?_entriesFrom]
      simp
    · rw [lineAt, holding, Buffer.get?_ofList, List.nil_append, List.getElem?_map]
      exact Program.getElem?_written hs hj

end Chunk

end Bytecode
