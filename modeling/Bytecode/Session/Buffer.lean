import Bytecode.Buffer
import Bytecode.Session.Basic

/-!
# Sessions on buffers and pools

The commands that a session knows for a buffer, and those for a constant pool.

* `Session.actOnBuffer`, `Session.actOnPool` — what each command does.
-/

namespace Bytecode.Session

/-! ## Buffers -/

/-- The commands of a buffer. -/
inductive BufferCommand (α : Type) where
  | push (item : α)
  | pushAll (items : List α)
  /-- Adds one element several times. -/
  | fill (count : Nat) (item : α)
  | get (index : Nat)
  | items
deriving Repr

/-- The replies of a buffer. -/
inductive BufferReply (α : Type) where
  | index (index : Nat)
  | indices (indices : List Nat)
  /-- The index of the last element that was added, if any was. -/
  | last (index : Option Nat)
  | item (item : Option α)
  | items (items : List α)
deriving Repr

/-- Carries out a command of a buffer. -/
def actOnBuffer {α : Type} [Element α] (command : BufferCommand α) (b : Buffer α) :
    Outcome Overflow (Buffer α) (BufferReply α) :=
  match command with
  | .push a => (b.push a).map .index
  | .pushAll items => (b.pushAll items).map .indices
  | .fill count a => (b.pushAll (List.replicate count a)).map fun is => .last is.getLast?
  | .get i => .done b (.item (b.get? i)) []
  | .items => .done b (.items b.toList) []

/-- Buffers as the objects of a session. -/
def buffers {α : Type} [Element α] : Kind (Buffer α) (BufferCommand α) (BufferReply α) where
  act := actOnBuffer
  clone := Buffer.clone
  free := Buffer.free
  tree := Buffer.tree

/-! ## Pools -/

/-- The commands of a pool. -/
inductive PoolCommand where
  | write (value : Value)
  | writeAll (values : List Value)
  /-- Adds the whole numbers from 0 on. -/
  | count (count : Nat)
  | get (index : Nat)
  | values
deriving Repr

/-- The replies of a pool. -/
inductive PoolReply where
  | index (index : Nat)
  | indices (indices : List Nat)
  /-- The index of the last value that was added, if any was. -/
  | last (index : Option Nat)
  | value (value : Option Value)
  | values (values : List Value)
deriving Repr

/-- The values of the whole numbers below `count`. -/
def wholeNumbers (count : Nat) : List Value :=
  (List.range count).map fun (n : Nat) => Value.ofInt n

/-- Carries out a command of a pool. -/
def actOnPool (command : PoolCommand) (p : Pool) : Outcome Overflow Pool PoolReply :=
  match command with
  | .write v => (p.write v).map .index
  | .writeAll vs => (p.writeAll vs).map .indices
  | .count n => (p.writeAll (wholeNumbers n)).map fun is => .last is.getLast?
  | .get i => .done p (.value (p.get? i)) []
  | .values => .done p (.values p.toList) []

/-- Pools as the objects of a session. -/
def pools : Kind Pool PoolCommand PoolReply where
  act := actOnPool
  clone := Pool.clone
  free := Pool.free
  tree := Pool.tree

end Bytecode.Session
