import Bytecode.Chunk
import Bytecode.CommandLine.Arguments
import Bytecode.Integer

/-!
# Chunks from arguments

A chunk is built from the texts of its constants and bytes and of the one line that all
bytes come from.  The texts are read in a fixed order, and the first that is not good is
reported: the line, then the constants, then the bytes.

* `CommandLine.build` — the chunk that the arguments ask for.
* `CommandLine.demo` — a small sample.
-/

namespace Bytecode.CommandLine

/-- Why there is no chunk. -/
inductive BuildError where
  | line (text : Text) (fault : Integer.Fault)
  | constant (text : Text) (fault : Value.Fault)
  /-- The constant could be read but not added. -/
  | pool (text : Text) (error : ChunkError)
  | byte (text : Text) (fault : Integer.Fault)
  /-- The constant of the sample could not be added. -/
  | sample (error : ChunkError)
  | overflow (reason : Overflow)
deriving Repr, DecidableEq

/-- The words for what is wrong with a text. -/
def complaint (what : String) (text reason : Text) : Text :=
  what.toList ++ " \"".toList ++ text ++ "\": ".toList ++ reason ++ ['.']

/-- The report of an error. -/
def BuildError.report : BuildError → Text
  | .line text fault => complaint "Invalid line" text fault.message.toList
  | .constant text fault => complaint "Invalid constant" text fault.message.toList
  | .pool text error => complaint "Could not add constant" text error.report
  | .byte text fault => complaint "Invalid byte" text fault.message.toList
  | .sample error => error.report
  | .overflow reason => reason.message.toList

/-- The line that bytes come from when none is given. -/
def defaultLine : Int32 := 1

/-- Reads the line, if one is given. -/
def readLine : Option Text → Except BuildError Int32
  | none => .ok defaultLine
  | some text => (Integer.readInt32 text).mapError (.line text)

/-- Reads constants and adds each to a chunk before the next is read. -/
def addConstants (c : Chunk) : List Text → Except BuildError Chunk
  | [] => .ok c
  | text :: rest =>
    match Value.read text with
    | .error fault => .error (.constant text fault)
    | .ok v =>
      let added := c.addConstant v
      match added.reply with
      | .error reason => .error (.overflow reason)
      | .ok (.error e) => .error (.pool text e)
      | .ok (.ok _) => addConstants added.state rest

/-- Reads bytes and writes each to a chunk before the next is read. -/
def writeBytes (line : Int32) (c : Chunk) : List Text → Except BuildError Chunk
  | [] => .ok c
  | text :: rest =>
    match Integer.readByte text with
    | .error fault => .error (.byte text fault)
    | .ok byte =>
      let written := c.write byte line
      match written.reply with
      | .error reason => .error (.overflow reason)
      | .ok () => writeBytes line written.state rest

/-- Builds the chunk that the arguments ask for. -/
def build (a : Arguments) : Except BuildError Chunk := do
  let line ← readLine a.line
  let c ← addConstants .empty a.constants
  writeBytes line c a.bytes

/-- The line that the bytes of the sample come from. -/
def demoLine : Int32 := 123

/-- Builds the sample: it loads the constant 1.2 and returns. -/
def demo : Except BuildError Chunk :=
  let added := Chunk.empty.addConstant (Value.ofDecimal false ⟨12, -1⟩)
  match added.reply with
  | .error reason => .error (.overflow reason)
  | .ok (.error e) => .error (.sample e)
  | .ok (.ok id) =>
    let written := added.state.writeAll
      [Opcode.constant.byte, id, Opcode.ret.byte] demoLine
    match written.reply with
    | .error reason => .error (.overflow reason)
    | .ok () => .ok written.state

end Bytecode.CommandLine
