import Bytecode.Error

/-!
# Instructions

An instruction is a byte for its opcode and the bytes of its operand.  Any bytes can be
decoded: a byte that starts no instruction is skipped, with the reason why.

* `Instruction.decode_encode`, `Instruction.encode_of_decode` — decoding finds an
  instruction iff the bytes start with its encoding.
* `Instruction.decode_take` — two bytes decide what is found.
* `Instruction.entries` — the walk over a list of bytes, one instruction or skipped byte
  at a time; `Instruction.entriesFrom_cons` is one step of it.
-/

namespace Bytecode

/-! ## Opcodes -/

/-- What an instruction does. -/
inductive Opcode where
  /-- Loads a constant from the pool. -/
  | constant
  /-- Returns from the current function. -/
  | ret
deriving Repr, DecidableEq

namespace Opcode

/-- The byte that stands for an opcode. -/
def byte : Opcode → UInt8
  | .constant => 0
  | .ret => 1

/-- The opcode that a byte stands for, if any. -/
def ofByte? (b : UInt8) : Option Opcode :=
  if b = 0 then some .constant else if b = 1 then some .ret else none

/-- The number of bytes of an instruction with this opcode. -/
def width : Opcode → Nat
  | .constant => 2
  | .ret => 1

/-- The name of an opcode. -/
def name : Opcode → Text
  | .constant => "Constant".toList
  | .ret => "Return".toList

/-- The name of an opcode in a listing. -/
def mnemonic : Opcode → Text
  | .constant => "OP_CONSTANT".toList
  | .ret => "OP_RETURN".toList

/-- The mnemonic, at the left of a field when a width is given. -/
def text (width : Option Nat) (op : Opcode) : Text :=
  match width with
  | none => op.mnemonic
  | some width => Text.padRight width op.mnemonic

/-- An opcode is found by no byte but its own. -/
theorem byte_of_ofByte? {b : UInt8} {op : Opcode} (h : ofByte? b = some op) : op.byte = b := by
  unfold ofByte? at h
  split at h
  · rename_i hconstant
    cases h
    exact hconstant.symm
  · split at h
    · rename_i hret
      cases h
      exact hret.symm
    · contradiction

end Opcode

/-! ## Decoding -/

/-- An opcode with its operand. -/
inductive Instruction where
  /-- Loads the constant with the given index. -/
  | constant (id : UInt8)
  | ret
deriving Repr, DecidableEq

/-- Why there is no instruction at the start of some bytes. -/
inductive DecodeError where
  | endOfCode
  | unknownOpcode (byte : UInt8)
  | missingOperand (opcode : Opcode)
deriving Repr, DecidableEq

namespace DecodeError

/-- The report of an error. -/
def report (e : DecodeError) : Text :=
  let message := match e with
    | .endOfCode => "unexpected end of bytecode".toList
    | .unknownOpcode b => "unknown opcode ".toList ++ Text.decimal b.toNat
    | .missingOperand op => "missing operand for ".toList ++ op.mnemonic
  describe "decode error".toList message none

/-- The name of an error with its details. -/
def text : DecodeError → Text
  | .endOfCode => "EndOfCode".toList
  | .unknownOpcode b => "UnknownOpcode(".toList ++ Text.decimal b.toNat ++ [')']
  | .missingOperand op => "MissingOperand(".toList ++ op.name ++ [')']

/-- The number of bytes that are skipped: always one. -/
def width : DecodeError → Nat := fun _ => 1

end DecodeError

/-- An instruction, or why there is none. -/
abbrev Decoded := Except DecodeError Instruction

namespace Instruction

/-- What an instruction does. -/
def opcode : Instruction → Opcode
  | .constant _ => .constant
  | .ret => .ret

/-- The number of bytes of an instruction. -/
def width (i : Instruction) : Nat := i.opcode.width

/-- The bytes of an instruction. -/
def encode : Instruction → List UInt8
  | .constant id => [Opcode.constant.byte, id]
  | .ret => [Opcode.ret.byte]

/-- The instruction at the start of some bytes; the bytes behind it do not matter. -/
def decode : List UInt8 → Decoded
  | [] => .error .endOfCode
  | tag :: operands =>
    match Opcode.ofByte? tag with
    | none => .error (.unknownOpcode tag)
    | some .constant =>
      match operands with
      | [] => .error (.missingOperand .constant)
      | id :: _ => .ok (.constant id)
    | some .ret => .ok .ret

/-- The greatest number of bytes of an instruction. -/
def maxWidth : Nat := 2

/-- The instruction at an offset into some code. -/
def decodeAt (code : Array UInt8) (offset : Nat) : Decoded :=
  decode (code.extract offset (offset + maxWidth)).toList

end Instruction

/-- The number of bytes used up by decoding. -/
def Decoded.width : Decoded → Nat
  | .ok i => i.width
  | .error e => e.width

namespace Instruction

theorem length_encode (i : Instruction) : i.encode.length = i.width := by
  cases i <;> rfl

/-- Decoding finds an instruction where the bytes start with its encoding. -/
theorem decode_encode (i : Instruction) (rest : List UInt8) :
    decode (i.encode ++ rest) = .ok i := by
  cases i <;> rfl

/-- Where decoding finds an instruction, the bytes start with its encoding. -/
theorem encode_of_decode {bytes : List UInt8} {i : Instruction} (h : decode bytes = .ok i) :
    ∃ rest, bytes = i.encode ++ rest := by
  unfold decode at h
  split at h
  · contradiction
  · rename_i tag operands
    split at h
    · contradiction
    · rename_i hfound
      have hbyte := Opcode.byte_of_ofByte? hfound
      split at h
      · contradiction
      · rename_i id rest
        cases h
        exact ⟨rest, by simp [encode, hbyte]⟩
    · rename_i hfound
      have hbyte := Opcode.byte_of_ofByte? hfound
      cases h
      exact ⟨operands, by simp [encode, hbyte]⟩

/-- Two bytes decide what is found. -/
theorem decode_take (bytes : List UInt8) : decode (bytes.take maxWidth) = decode bytes := by
  match bytes with
  | [] => rfl
  | [_] => rfl
  | _ :: _ :: _ => rfl

/-- What is found at an offset is found at the start of what is left from there on. -/
theorem decodeAt_eq (code : Array UInt8) (offset : Nat) :
    decodeAt code offset = decode (code.toList.drop offset) := by
  have hwindow : (code.extract offset (offset + maxWidth)).toList =
      (code.toList.drop offset).take maxWidth := by
    simp [List.take_drop]
  rw [decodeAt, hwindow, decode_take]

end Instruction

/-- Decoding uses up a byte at least. -/
theorem Decoded.width_pos (d : Decoded) : 0 < d.width := by
  match d with
  | .error _ => exact Nat.one_pos
  | .ok (.constant _) => exact Nat.two_pos
  | .ok .ret => exact Nat.one_pos

/-! ## Walking over code -/

/-- What is found at an offset. -/
structure Entry where
  offset : Nat
  result : Decoded
deriving Repr

namespace Instruction

/-- The entries of some bytes that start at `offset`. -/
def entriesFrom (offset : Nat) : List UInt8 → List Entry
  | [] => []
  | b :: rest =>
    let result := decode (b :: rest)
    ⟨offset, result⟩ :: entriesFrom (offset + result.width) ((b :: rest).drop result.width)
termination_by bytes => bytes.length
decreasing_by
  have := Decoded.width_pos (decode (b :: rest))
  simp only [List.length_drop, List.length_cons]
  omega

/-- The entries of some code. -/
def entries (bytes : List UInt8) : List Entry := entriesFrom 0 bytes

@[simp] theorem entriesFrom_nil (offset : Nat) : entriesFrom offset [] = [] := by
  rw [entriesFrom]

/-- One step of the walk: what is found first, and the walk over what is left behind it. -/
theorem entriesFrom_cons (offset : Nat) (b : UInt8) (rest : List UInt8) :
    entriesFrom offset (b :: rest) =
      ⟨offset, decode (b :: rest)⟩ ::
        entriesFrom (offset + (decode (b :: rest)).width)
          ((b :: rest).drop (decode (b :: rest)).width) := by
  rw [entriesFrom]

end Instruction

end Bytecode
