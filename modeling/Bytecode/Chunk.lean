import Bytecode.Instruction
import Bytecode.Buffer

/-!
# Chunks

A chunk is a unit of bytecode: its code, the source line of every byte of it, and the
pool of the constants that its instructions name.  Code and lines are written together,
so they grow together.

* `Chunk.write` — adds a byte with its line; nothing checks that the bytes form
  instructions.
* `Chunk.addConstant` — adds a constant and replies with the operand that names it,
  unless the pool holds as many constants as a byte can name.
-/

namespace Bytecode

/-- A unit of bytecode. -/
structure Chunk where
  code : Buffer UInt8
  lines : Buffer Int32
  constants : Pool
deriving Repr, DecidableEq

namespace Chunk

/-- A chunk without code and constants. -/
def empty : Chunk := ⟨.empty, .empty, .empty⟩

instance : Inhabited Chunk := ⟨empty⟩

/-- The number of bytes of code. -/
def size (c : Chunk) : Nat := c.code.size

/-- The number of bytes that the storage of the code is meant for. -/
def capacity (c : Chunk) : Nat := c.code.capacity

/-- Whether there is no code. -/
def isEmpty (c : Chunk) : Bool := c.code.isEmpty

/-- The source line of the byte at an offset. -/
def lineAt (c : Chunk) (offset : Nat) : Option Int32 := c.lines.get? offset

/-- The constant that an operand names. -/
def lookup (c : Chunk) (id : UInt8) : Option Value := c.constants.get? id.toNat

/-- What is found when the code is walked from its start. -/
def entries (c : Chunk) : List Entry := Instruction.entries c.code.toList

/-! ## Writing code -/

/-- Adds a byte to the code. -/
def pushByte : Chunk → UInt8 → Outcome Overflow Chunk Nat
  | ⟨code, lines, constants⟩, byte => (code.push byte).within fun code => ⟨code, lines, constants⟩

/-- Adds the line of a byte. -/
def pushLine : Chunk → Int32 → Outcome Overflow Chunk Nat
  | ⟨code, lines, constants⟩, line => (lines.push line).within fun lines => ⟨code, lines, constants⟩

/-- Adds a byte and the source line that it comes from. -/
def write (c : Chunk) (byte : UInt8) (line : Int32) : Outcome Overflow Chunk Unit :=
  let old := c.capacity
  (c.pushByte byte).andThen fun _ c =>
  (c.pushLine line).andThen fun _ c =>
    let new := c.capacity
    .done c () (if new = old then [] else [.chunkGrew old new])

/-- Adds bytes that come from one source line. -/
def writeAll (c : Chunk) (bytes : List UInt8) (line : Int32) : Outcome Overflow Chunk Unit :=
  match bytes with
  | [] => .done c () []
  | byte :: rest => (c.write byte line).andThen fun _ c => c.writeAll rest line

/-- Adds the byte of an opcode. -/
def writeOpcode (c : Chunk) (op : Opcode) (line : Int32) : Outcome Overflow Chunk Unit :=
  c.write op.byte line

/-- Adds the bytes of an instruction. -/
def writeInstruction (c : Chunk) (i : Instruction) (line : Int32) : Outcome Overflow Chunk Unit :=
  c.writeAll i.encode line

/-! ## Adding constants -/

/-- The number of constants that an operand can name: one for each byte. -/
def constantLimit : Nat := 256

/-- The report of a number that is no index of a constant. -/
def indexOutOfRange : Text := "out of range integral type conversion attempted".toList

/-- The error of a full pool, caused by the index that the next constant would have. -/
def poolFull : ChunkError := (ChunkError.bare .poolLimit).causedBy (.other indexOutOfRange)

/-- Adds a value to the pool of a chunk. -/
def pushConstant : Chunk → Value → Outcome Overflow Chunk Nat
  | ⟨code, lines, constants⟩, v => (constants.write v).within fun pool => ⟨code, lines, pool⟩

/-- Adds a constant; the reply is the operand that names it. A full pool is left as it is. -/
def addConstant (c : Chunk) (v : Value) : Outcome Overflow Chunk (Except ChunkError UInt8) :=
  let index := c.constants.size
  if index < constantLimit then
    let id := UInt8.ofNat index
    (c.pushConstant v).andThen fun _ c => .done c (.ok id) [.constantAdded v id]
  else .done c (.error poolFull) []

/-- Adds constants one after the other, going on behind an error; the reply is that of the last. -/
def addConstants (c : Chunk) : List Value →
    Outcome Overflow Chunk (Option (Except ChunkError UInt8))
  | [] => .done c none []
  | v :: rest =>
    (c.addConstant v).andThen fun r c => (c.addConstants rest).map fun last => some (last.getD r)

/-! ## The chunk as a whole -/

/-- A copy of a chunk. -/
def clone (c : Chunk) : Chunk × List Event :=
  let (code, codeEvents) := c.code.clone
  let (lines, lineEvents) := c.lines.clone
  let (constants, constantEvents) := c.constants.clone
  (⟨code, lines, constants⟩, codeEvents ++ lineEvents ++ constantEvents)

/-- Gives up the code, the lines and the constants. -/
def free (c : Chunk) : Chunk × List Event :=
  let (code, codeEvents) := c.code.free
  let (lines, lineEvents) := c.lines.free
  let (constants, constantEvents) := c.constants.free
  (⟨code, lines, constants⟩, codeEvents ++ lineEvents ++ constantEvents)

/-- The description of a chunk. -/
def tree (c : Chunk) : Text.Tree :=
  .record "Chunk" [("code", c.code.tree), ("lines", c.lines.tree), ("constants", c.constants.tree)]

end Chunk

end Bytecode
