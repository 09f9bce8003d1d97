import Bytecode.Chunk
import Bytecode.Text.Basic

/-!
# Listings

A listing shows a chunk as text, one line for each entry of its code: the offset, the
source line, and what is found there.  The source line of a byte is shown as a bar where
it is that of the byte before.  Each field is as wide as its text at least, and columns
line up while the texts fit.

A listing is written to a sink, which takes text piece by piece.  A sink with a limit
refuses a piece with which it would hold more bytes of UTF-8 than that, and keeps what it
has.

* `Sink.write` — hands a piece of text to a sink.
* `Listing.line` — the line for what is found at an offset, inside the code or beyond it.
* `Listing.writeAt` — writes one line; the reply is the next offset, which lies further
  on.
* `Listing.write` — writes the header and all lines.
-/

namespace Bytecode

/-! ## Sinks -/

/-- A taker of text, with what it has taken. -/
structure Sink where
  /-- The number of bytes it holds at most. -/
  limit : Option Nat
  text : String
deriving Repr, DecidableEq

/-- Why writing stops. -/
inductive WriteFault where
  /-- The sink has no room for a piece. -/
  | refused
  | overflow (reason : Overflow)
deriving Repr, DecidableEq

namespace Sink

/-- A sink that has taken nothing. -/
def fresh (limit : Option Nat) : Sink := ⟨limit, ""⟩

/-- Whether a sink of the given limit may hold this many bytes. -/
def admits (limit : Option Nat) (bytes : Nat) : Bool :=
  match limit with
  | none => true
  | some limit => bytes ≤ limit

/-- Hands a piece of text to a sink. -/
def write (s : Sink) (piece : Text) : Outcome WriteFault Sink Unit :=
  let piece := String.ofList piece
  if admits s.limit (s.text.utf8ByteSize + piece.utf8ByteSize) then
    .done ⟨s.limit, s.text ++ piece⟩ () []
  else .stop s .refused []

end Sink

/-! ## Lines -/

/-- A chunk to be shown, under a name if there is one. -/
structure Listing where
  chunk : Chunk
  name : Option Text
deriving Repr, DecidableEq

namespace Listing

/-- The column of the offset: four digits at least. -/
def offsetColumn (offset : Nat) : Text := Text.padLeft '0' 4 (Text.decimal offset) ++ [' ']

/-- The column of the source line: a number, a bar if it is that of the byte before, or a question
mark where there is no byte. -/
def lineColumn (c : Chunk) (offset : Nat) : Text :=
  let before := if offset = 0 then none else c.lineAt (offset - 1)
  match c.lineAt offset with
  | none => "   ? ".toList
  | some line =>
    if before = some line then "   | ".toList
    else Text.padLeft ' ' 4 (Text.signedDecimal line.toInt) ++ [' ']

/-- The constant that an operand names: quoted, or marked as missing. -/
def constantText (c : Chunk) (id : UInt8) : Text :=
  match c.lookup id with
  | some v => '\'' :: v.text ++ ['\'']
  | none => "<invalid constant>".toList

/-- The width of the column of mnemonics that are followed by an operand. -/
def mnemonicWidth : Nat := 16

/-- What is found at an offset, in words. -/
def body (c : Chunk) : Decoded → Text
  | .ok (.constant id) =>
    Opcode.constant.text (some mnemonicWidth) ++ ' ' ::
      Text.padLeft ' ' 4 (Text.decimal id.toNat) ++ ' ' :: constantText c id
  | .ok .ret => Opcode.ret.text none
  | .error (.unknownOpcode b) => "Unknown opcode ".toList ++ Text.decimal b.toNat
  | .error (.missingOperand op) => op.text (some mnemonicWidth) ++ " <missing operand>".toList
  | .error .endOfCode => '<' :: DecodeError.endOfCode.report ++ ['>']

/-- What is found at an offset into the code of a chunk, or beyond its end. -/
def found (c : Chunk) (offset : Nat) : Decoded := Instruction.decodeAt c.code.items offset

/-- The line for an offset, without its end. -/
def line (c : Chunk) (offset : Nat) : Text :=
  Text.trimEnd (offsetColumn offset ++ lineColumn c offset ++ body c (found c offset))

/-- What happens while the line for an offset is made up. -/
def lineEvents (c : Chunk) (offset : Nat) : List Event :=
  match found c offset with
  | .ok (.constant id) =>
    match c.lookup id with
    | some _ => []
    | none => [.constantMissing id c.constants.size]
  | _ => []

/-! ## Writing -/

/-- Adds the width of what was found to its offset. The sum lies further on. -/
def advance (offset : Nat) (d : Decoded) : Except Overflow { next : Nat // offset < next } :=
  match h : Size.add offset d.width with
  | .error e => .error e
  | .ok next => .ok ⟨next, by
      have := (Size.add_eq_ok_iff.mp h).2
      have := d.width_pos
      omega⟩

/-- Writes the line for an offset; the reply is the offset behind what is found there. -/
def writeAt (c : Chunk) (offset : Nat) (s : Sink) :
    Outcome WriteFault Sink { next : Nat // offset < next } :=
  Outcome.andThen (.done s () (lineEvents c offset)) fun _ s =>
  (s.write (line c offset)).andThen fun _ s =>
  (s.write ['\n']).andThen fun _ s =>
    match advance offset (found c offset) with
    | .error e => .stop s (.overflow e) []
    | .ok next => .done s next []

/-- Writes the lines from an offset to the end of the code. -/
def writeFrom (c : Chunk) (offset : Nat) (s : Sink) : Outcome WriteFault Sink Unit :=
  if offset < c.size then
    (writeAt c offset s).andThen fun next s => writeFrom c next.val s
  else .done s () []
termination_by c.size - offset
decreasing_by
  have := next.property
  omega

/-- Inside the code a line is written, and the lines behind it follow. -/
theorem writeFrom_of_lt {c : Chunk} {offset : Nat} (s : Sink) (h : offset < c.size) :
    writeFrom c offset s =
      (writeAt c offset s).andThen fun next s => writeFrom c next.val s := by
  rw [writeFrom, if_pos h]

/-- Nothing is written behind the end of the code. -/
theorem writeFrom_of_le {c : Chunk} {offset : Nat} (s : Sink) (h : c.size ≤ offset) :
    writeFrom c offset s = .done s () [] := by
  rw [writeFrom, if_neg (Nat.not_lt.mpr h)]

/-- Writes the header that shows a name. -/
def writeHeader (name : Text) (s : Sink) : Outcome WriteFault Sink Unit :=
  (s.write "== ".toList).andThen fun _ s =>
  (s.write name).andThen fun _ s =>
    s.write " ==\n".toList

/-- Writes a listing: the header, if there is a name, and a line for each entry. -/
def write (l : Listing) (s : Sink) : Outcome WriteFault Sink Unit :=
  match l.name with
  | none => writeFrom l.chunk 0 s
  | some name => (writeHeader name s).andThen fun _ s => writeFrom l.chunk 0 s

/-! ## Printing -/

/-- What printing a chunk under a name puts out. -/
def print (c : Chunk) (name : Text) : Outcome WriteFault Sink Unit :=
  Listing.write ⟨c, some name⟩ (.fresh none)

/-- What printing the line for an offset puts out; the reply is the next offset. Nothing is put out
if that does not fit in a machine word. -/
def printAt (c : Chunk) (offset : Nat) : Outcome WriteFault Sink Nat :=
  let written := writeAt c offset (.fresh none)
  match written.reply, Size.add offset 1 with
  | .error (.overflow e), _ => .stop (.fresh none) (.overflow e) written.events
  | _, .error e => .stop (.fresh none) (.overflow e) written.events
  | .error .refused, .ok next => .done written.state next written.events
  | .ok next, .ok _ => .done written.state next.val written.events

end Listing

end Bytecode
