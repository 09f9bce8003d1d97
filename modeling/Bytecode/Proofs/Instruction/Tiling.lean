import Bytecode.Chunk
import Mathlib.Data.List.Chain

/-!
# The entries of a chunk tile its code

Walking over code reads every byte of it once, whatever the bytes are.  An
entry stands for some bytes: an instruction for its encoding, a skipped byte
for itself.

* `Decoded.bytes` — the bytes that the result of a decoding stands for.
* `Instruction.decode_eq_ok_iff` — the step law: an instruction is found iff
  the bytes start with its encoding.
* `Instruction.bytes_decode_append` — one step of the walk loses nothing: the
  bytes of what is found, and the bytes from which the walk goes on.
* `Tiles` — entries that lie end to end between two offsets; those of any bytes
  do (`tiles_entriesFrom`).
* `Chunk.tiling_entries` — the entries of a chunk are a lossless image of its
  code.
-/

namespace Bytecode

/-! ## One step of the walk -/

/-- The bytes that the result of a decoding stands for. -/
def Decoded.bytes : Decoded → List UInt8
  | .ok i => i.encode
  | .error (.unknownOpcode b) => [b]
  | .error (.missingOperand op) => [op.byte]
  | .error .endOfCode => []

/-- Whether the result of a decoding is an instruction without its operand. -/
def Decoded.isCutOff : Decoded → Bool
  | .error (.missingOperand _) => true
  | _ => false

theorem Decoded.length_bytes {d : Decoded} (h : d ≠ .error .endOfCode) :
    d.bytes.length = d.width := by
  match d, h with
  | .ok i, _ => exact i.length_encode
  | .error (.unknownOpcode _), _ => rfl
  | .error (.missingOperand _), _ => rfl

namespace Instruction

/-- **The step law.**  An instruction is found iff the bytes start with its
encoding. -/
theorem decode_eq_ok_iff {bytes : List UInt8} {i : Instruction} :
    decode bytes = .ok i ↔ i.encode <+: bytes := by
  constructor
  · intro h
    obtain ⟨rest, rfl⟩ := encode_of_decode h
    exact List.prefix_append ..
  · rintro ⟨rest, rfl⟩
    exact decode_encode i rest

/-- What is found at a byte: an instruction, a byte that is no opcode, or the
opcode of an instruction whose operand is cut off. -/
theorem decode_cons_cases (b : UInt8) (rest : List UInt8) :
    (∃ i tail, b :: rest = i.encode ++ tail ∧ decode (b :: rest) = .ok i) ∨
      decode (b :: rest) = .error (.unknownOpcode b) ∨
      (rest = [] ∧ ∃ op : Opcode, op.byte = b ∧
        decode (b :: rest) = .error (.missingOperand op)) := by
  cases hd : decode (b :: rest) with
  | ok i =>
    obtain ⟨tail, ht⟩ := encode_of_decode hd
    exact Or.inl ⟨i, tail, ht, rfl⟩
  | error e =>
    refine Or.inr ?_
    simp only [decode] at hd
    split at hd
    · cases hd
      exact Or.inl rfl
    · rename_i hop
      split at hd
      · cases hd
        exact Or.inr ⟨rfl, .constant, Opcode.byte_of_ofByte? hop, rfl⟩
      · cases hd
    · cases hd

theorem decode_cons_ne_endOfCode (b : UInt8) (rest : List UInt8) :
    decode (b :: rest) ≠ .error .endOfCode := by
  rcases decode_cons_cases b rest with ⟨i, tail, -, h⟩ | h | ⟨-, op, -, h⟩ <;> simp [h]

/-- One step of the walk loses nothing: the bytes of what is found, followed by
the bytes from which the walk goes on, are those there were. -/
theorem bytes_decode_append (b : UInt8) (rest : List UInt8) :
    (decode (b :: rest)).bytes ++ (b :: rest).drop (decode (b :: rest)).width = b :: rest := by
  rcases decode_cons_cases b rest with ⟨i, tail, ht, h⟩ | h | ⟨-, op, rfl, h⟩
  · rw [h, ht, Decoded.width, ← i.length_encode, List.drop_left, Decoded.bytes]
  · rw [h]
    rfl
  · rw [h]
    rfl

theorem width_decode_le (b : UInt8) (rest : List UInt8) :
    (decode (b :: rest)).width ≤ (b :: rest).length := by
  have hlen := congrArg List.length (bytes_decode_append b rest)
  rw [List.length_append, Decoded.length_bytes (decode_cons_ne_endOfCode b rest)] at hlen
  omega

end Instruction

/-! ## The whole walk -/

/-- The entries lie end to end: the first one at `start`, each next one behind
the last, and nothing is left before `stop`. -/
def Tiles (start : Nat) : List Entry → Nat → Prop
  | [], stop => start = stop
  | e :: rest, stop => e.offset = start ∧ Tiles (start + e.result.width) rest stop

namespace Tiles

variable {start stop : Nat} {es : List Entry}

theorem le (h : Tiles start es stop) : start ≤ stop := by
  induction es generalizing start with
  | nil => exact Nat.le_of_eq h
  | cons e rest ih =>
    have := ih h.2
    omega

theorem head? (h : Tiles start es stop) {e : Entry} (he : es.head? = some e) :
    e.offset = start := by
  cases es with
  | nil => cases he
  | cons a rest =>
    cases he
    exact h.1

theorem le_offset (h : Tiles start es stop) {e : Entry} (he : e ∈ es) : start ≤ e.offset := by
  induction es generalizing start with
  | nil => cases he
  | cons a rest ih =>
    obtain ⟨rfl, hrest⟩ := h
    rcases List.mem_cons.1 he with rfl | he
    · exact Nat.le_refl _
    · exact Nat.le_trans (Nat.le_add_right _ _) (ih hrest he)

theorem isChain (h : Tiles start es stop) :
    es.IsChain fun a b => b.offset = a.offset + a.result.width := by
  induction es generalizing start with
  | nil => exact .nil
  | cons e rest ih =>
    obtain ⟨rfl, hrest⟩ := h
    cases rest with
    | nil => exact .singleton e
    | cons e' rest => exact .cons_cons hrest.1 (ih hrest)

theorem getLast? (h : Tiles start es stop) {e : Entry} (he : es.getLast? = some e) :
    e.offset + e.result.width = stop := by
  induction es generalizing start with
  | nil => cases he
  | cons a rest ih =>
    obtain ⟨rfl, hrest⟩ := h
    cases rest with
    | nil =>
      cases he
      exact hrest
    | cons a' rest => exact ih hrest (by rwa [List.getLast?_cons_cons] at he)

theorem offset_add_width_le (h : Tiles start es stop) {e : Entry} (he : e ∈ es) :
    e.offset + e.result.width ≤ stop := by
  induction es generalizing start with
  | nil => cases he
  | cons a rest ih =>
    obtain ⟨rfl, hrest⟩ := h
    rcases List.mem_cons.1 he with rfl | he
    · exact hrest.le
    · exact ih hrest he

/-- Behind an entry lies the next one, and behind the last one the end. -/
theorem getD_offset_succ (h : Tiles start es stop) {k : Nat} {e : Entry} (he : es[k]? = some e) :
    (es[k + 1]?.map Entry.offset).getD stop = e.offset + e.result.width := by
  induction es generalizing start k with
  | nil => cases he
  | cons a rest ih =>
    obtain ⟨rfl, hrest⟩ := h
    cases k with
    | zero =>
      cases he
      cases rest with
      | nil => exact hrest.symm
      | cons a' rest => exact hrest.1
    | succ k => exact ih hrest he

/-- Every entry takes up a byte at least. -/
theorem length_le (h : Tiles start es stop) : start + es.length ≤ stop := by
  induction es generalizing start with
  | nil => exact Nat.le_of_eq h
  | cons e rest ih =>
    have hrest := ih h.2
    have hpos := e.result.width_pos
    rw [List.length_cons]
    omega

end Tiles

namespace Instruction

theorem tiles_entriesFrom (offset : Nat) (bytes : List UInt8) :
    Tiles offset (entriesFrom offset bytes) (offset + bytes.length) := by
  fun_induction entriesFrom offset bytes with
  | case1 offset => rfl
  | case2 offset b rest result ih =>
    have hw : result.width ≤ (b :: rest).length := width_decode_le b rest
    refine ⟨rfl, ?_⟩
    rwa [List.length_drop, Nat.add_assoc, Nat.add_sub_cancel' hw] at ih

theorem flatMap_bytes_entriesFrom (offset : Nat) (bytes : List UInt8) :
    (entriesFrom offset bytes).flatMap (·.result.bytes) = bytes := by
  fun_induction entriesFrom offset bytes with
  | case1 offset => rfl
  | case2 offset b rest result ih =>
    rw [List.flatMap_cons, ih]
    exact bytes_decode_append b rest

theorem result_ne_endOfCode {offset : Nat} {bytes : List UInt8} {e : Entry}
    (he : e ∈ entriesFrom offset bytes) : e.result ≠ .error .endOfCode := by
  fun_induction entriesFrom offset bytes with
  | case1 offset => cases he
  | case2 offset b rest result ih =>
    rcases List.mem_cons.1 he with rfl | he
    · exact decode_cons_ne_endOfCode b rest
    · exact ih he

/-- An entry shows what is decoded at its offset. -/
theorem result_eq_decode_drop {start : Nat} {bytes : List UInt8} {e : Entry}
    (he : e ∈ entriesFrom start bytes) :
    start ≤ e.offset ∧ e.result = decode (bytes.drop (e.offset - start)) := by
  fun_induction entriesFrom start bytes with
  | case1 start => cases he
  | case2 start b rest result ih =>
    rcases List.mem_cons.1 he with rfl | he
    · rw [Nat.sub_self, List.drop_zero]
      exact ⟨Nat.le_refl _, rfl⟩
    · obtain ⟨hle, hresult⟩ := ih he
      have hskip : result.width + (e.offset - (start + result.width)) = e.offset - start := by omega
      rw [List.drop_drop, hskip] at hresult
      exact ⟨by omega, hresult⟩

/-- An operand is cut off by the end of the code alone. -/
theorem eq_nil_of_isCutOff {b : UInt8} {rest : List UInt8}
    (h : (decode (b :: rest)).isCutOff = true) : rest = [] := by
  rcases decode_cons_cases b rest with ⟨i, tail, -, hd⟩ | hd | ⟨hrest, -⟩
  · rw [hd] at h
    cases h
  · rw [hd] at h
    cases h
  · exact hrest

theorem offset_add_one_of_isCutOff {offset : Nat} {bytes : List UInt8} {e : Entry}
    (he : e ∈ entriesFrom offset bytes) (hcut : e.result.isCutOff = true) :
    e.offset + 1 = offset + bytes.length := by
  fun_induction entriesFrom offset bytes with
  | case1 offset => cases he
  | case2 offset b rest result ih =>
    have hw : result.width ≤ (b :: rest).length := width_decode_le b rest
    rcases List.mem_cons.1 he with rfl | he
    · rw [eq_nil_of_isCutOff hcut]
      rfl
    · have hstop := ih he
      rw [List.length_drop] at hstop
      omega

theorem countP_isCutOff_le (offset : Nat) (bytes : List UInt8) :
    (entriesFrom offset bytes).countP (·.result.isCutOff) ≤ 1 := by
  fun_induction entriesFrom offset bytes with
  | case1 offset => exact Nat.zero_le _
  | case2 offset b rest result ih =>
    by_cases hcut : result.isCutOff = true
    · -- the walk ends behind an operand that is cut off
      have hnil : (b :: rest).drop result.width = [] := by
        rw [eq_nil_of_isCutOff hcut]
        exact List.drop_eq_nil_of_le result.width_pos
      rw [hnil, entriesFrom_nil, List.countP_singleton]
      split <;> decide
    · rw [List.countP_cons, if_neg hcut]
      exact ih

end Instruction

/-! ## The code and its image -/

/-- The entries `es` are a lossless image of `code`. -/
structure Tiling (code : List UInt8) (es : List Entry) : Prop where
  /-- The first entry lies at the start. -/
  first : code ≠ [] → es.head?.map Entry.offset = some 0
  /-- Each next entry lies behind the one before it. -/
  next : es.IsChain fun a b => b.offset = a.offset + a.result.width
  /-- The last entry ends where the code ends. -/
  last : ∀ e, es.getLast? = some e → e.offset + e.result.width = code.length
  /-- No entry goes beyond the end. -/
  within : ∀ e ∈ es, e.offset + e.result.width ≤ code.length
  /-- The bytes that the entries stand for are the code. -/
  bytes : es.flatMap (·.result.bytes) = code
  /-- The walk never asks for an instruction behind the end. -/
  noEndOfCode : ∀ e ∈ es, e.result ≠ .error .endOfCode
  /-- At most one operand is cut off … -/
  cutOnce : es.countP (·.result.isCutOff) ≤ 1
  /-- … and it is that of the last byte. -/
  cutLast : ∀ e ∈ es, e.result.isCutOff = true → e.offset + 1 = code.length
  /-- There are no more entries than bytes. -/
  count : es.length ≤ code.length

/-- **Decoding is lossless on every chunk**, whether its bytes form
instructions or not. -/
theorem Chunk.tiling_entries (c : Chunk) : Tiling c.code.toList c.entries := by
  have htiles : Tiles 0 c.entries c.code.toList.length := by
    have h := Instruction.tiles_entriesFrom 0 c.code.toList
    rwa [Nat.zero_add] at h
  constructor
  case first =>
    intro hne
    obtain ⟨b, rest, hcode⟩ := List.exists_cons_of_ne_nil hne
    rw [entries, Instruction.entries, hcode, Instruction.entriesFrom_cons]
    rfl
  case next => exact htiles.isChain
  case last => exact fun e he => htiles.getLast? he
  case within => exact fun e he => htiles.offset_add_width_le he
  case bytes => exact Instruction.flatMap_bytes_entriesFrom 0 c.code.toList
  case noEndOfCode => exact fun e he => Instruction.result_ne_endOfCode he
  case cutOnce => exact Instruction.countP_isCutOff_le 0 c.code.toList
  case cutLast =>
    intro e he hcut
    have h := Instruction.offset_add_one_of_isCutOff he hcut
    rwa [Nat.zero_add] at h
  case count =>
    have h := htiles.length_le
    rwa [Nat.zero_add] at h

end Bytecode
