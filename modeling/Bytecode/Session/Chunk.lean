import Bytecode.Listing
import Bytecode.Session.Buffer

/-!
# Sessions on chunks

The commands that a session knows for a chunk: writing code, adding constants, looking at
what is there, and writing all or one line of its listing.

* `Session.actOnChunk` — what each command does.
-/

namespace Bytecode.Session

/-- The commands of a chunk. -/
inductive ChunkCommand where
  | write (bytes : List UInt8) (line : Int32)
  | writeOpcode (opcode : Opcode) (line : Int32)
  | writeInstruction (instruction : Instruction) (line : Int32)
  | addConstant (value : Value)
  /-- Adds the whole numbers from 0 on as constants. -/
  | addCount (count : Nat)
  | code
  | lines
  | lineAt (offset : Nat)
  | lookup (id : UInt8)
  | constants
  | entries
  /-- Writes the listing to a sink, under a name if there is one. -/
  | listing (name : Option Text) (limit : Option Nat)
  /-- Writes the line for an offset to a sink. -/
  | listAt (offset : Nat) (limit : Option Nat)
  | print (name : Text)
  | printAt (offset : Nat)
deriving Repr

/-- The replies of a chunk. -/
inductive ChunkReply where
  | done
  | constant (result : Except ChunkError UInt8)
  /-- What adding the last constant led to, if any was added. -/
  | lastConstant (result : Option (Except ChunkError UInt8))
  | code (bytes : List UInt8)
  | lines (lines : List Int32)
  | line (line : Option Int32)
  | value (value : Option Value)
  | values (values : List Value)
  | entries (entries : List Entry)
  | text (text : String)
  /-- The text of one line and the offset behind what it shows. -/
  | lineText (text : String) (next : Nat)
  /-- The sink had no room. -/
  | refused

/-- The outcome of writing about a chunk: a full sink is a reply, an overflow is none. -/
def written {ρ : Type} (c : Chunk) (o : Outcome WriteFault Sink ρ)
    (reply : ρ → String → ChunkReply) : Outcome Overflow Chunk ChunkReply :=
  match o.reply with
  | .ok r => .done c (reply r o.state.text) o.events
  | .error .refused => .done c .refused o.events
  | .error (.overflow e) => .stop c e o.events

/-- Carries out a command of a chunk. -/
def actOnChunk (command : ChunkCommand) (c : Chunk) : Outcome Overflow Chunk ChunkReply :=
  match command with
  | .write bytes line => (c.writeAll bytes line).map fun _ => .done
  | .writeOpcode op line => (c.writeOpcode op line).map fun _ => .done
  | .writeInstruction i line => (c.writeInstruction i line).map fun _ => .done
  | .addConstant v => (c.addConstant v).map .constant
  | .addCount n => (c.addConstants (wholeNumbers n)).map .lastConstant
  | .code => .done c (.code c.code.toList) []
  | .lines => .done c (.lines c.lines.toList) []
  | .lineAt offset => .done c (.line (c.lineAt offset)) []
  | .lookup id => .done c (.value (c.lookup id)) []
  | .constants => .done c (.values c.constants.toList) []
  | .entries => .done c (.entries c.entries) []
  | .listing name limit =>
    written c (Listing.write ⟨c, name⟩ (.fresh limit)) fun _ text => .text text
  | .listAt offset limit =>
    written c (Listing.writeAt c offset (.fresh limit)) fun next text => .lineText text next.val
  | .print name => written c (Listing.print c name) fun _ text => .text text
  | .printAt offset =>
    written c (Listing.printAt c offset) fun next text => .lineText text next

/-- Chunks as the objects of a session. -/
def chunks : Kind Chunk ChunkCommand ChunkReply where
  act := actOnChunk
  clone := Chunk.clone
  free := Chunk.free
  tree := Chunk.tree

end Bytecode.Session
