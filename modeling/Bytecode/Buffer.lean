import Bytecode.Outcome
import Bytecode.Text.Quoted
import Bytecode.Text.Tree

/-!
# Buffers and pools

A buffer is a sequence to which elements are added at the end.  It keeps count of the
elements that its storage is meant for: the capacity, which is at least 8 once there is
an element and is doubled whenever an element is added to a full buffer.  A pool is a
buffer of values, which are named by their index: as values are only ever added, an
index stays good for as long as the pool is not given up.

* `Buffer.push` — adds an element; the reply is its index.
* `Buffer.clone` — a copy of the same capacity, so that it grows when the buffer does.
* `Buffer.free` — gives up the elements and the storage.
* `Buffer.toList_resize_zero`, `Buffer.toList_resize_of_lt`, `Buffer.resize_of_le` — what
  is left of the elements when their storage changes.
* `Buffer.push_of_grow`, `Buffer.push_of_room`, `Buffer.push_of_stuck` — what adding an
  element does to a full buffer, to another one, and to one that cannot grow.
-/

namespace Bytecode

/-! ## Elements -/

/-- The types of elements: how many bytes of storage one takes, and how one is described. -/
class Element (α : Type) where
  bytes : Nat
  tree : α → Text.Tree

instance : Element UInt8 := ⟨1, fun n => .word (Text.decimal n.toNat)⟩

instance : Element Int32 := ⟨4, fun n => .word (Text.signedDecimal n.toInt)⟩

instance : Element Int64 := ⟨8, fun n => .word (Text.signedDecimal n.toInt)⟩

instance : Element Value := ⟨8, Value.tree⟩

instance : Element Unit := ⟨0, fun _ => .word "()".toList⟩

instance : Element String := ⟨24, fun s => .word (Text.quote s.toList)⟩

/-- A sequence of elements and the number of elements that its storage is meant for. -/
structure Buffer (α : Type) where
  items : Array α
  capacity : Nat
deriving Repr, DecidableEq

namespace Buffer

variable {α : Type}

/-! ## Storage -/

/-- The least capacity of a buffer that has storage. -/
def minCapacity : Nat := 8

/-- The capacity that a full buffer grows to. -/
def grow (capacity : Nat) : Except Overflow Nat :=
  if capacity < minCapacity then .ok minCapacity else Size.multiply capacity 2

/-- Changes the storage of `items` from `old` elements to `new`. Smaller storage keeps the elements
in front, none at all keeps none, and storage that does not shrink keeps all of them. -/
def resize (items : Array α) (old new : Nat) : Array α :=
  if new = 0 then #[] else if new < old then items.take new else items

/-- The event of changing the storage of elements of type `α`. -/
def resized (α : Type) [Element α] (old new : Nat) : Event :=
  .resized old new (Element.bytes α)

/-- Without storage there are no elements. -/
theorem toList_resize_zero (items : Array α) (old : Nat) : (resize items old 0).toList = [] := by
  simp [resize]

/-- Storage that shrinks keeps the elements in front. -/
theorem toList_resize_of_lt {items : Array α} {old new : Nat} (h : new < old) :
    (resize items old new).toList = items.toList.take new := by
  by_cases hzero : new = 0 <;> simp [resize, hzero, h]

/-- Storage that does not shrink keeps all elements. -/
theorem resize_of_le {items : Array α} {old new : Nat} (hpos : 0 < new) (h : old ≤ new) :
    resize items old new = items := by
  simp [resize, Nat.ne_of_gt hpos, Nat.not_lt.mpr h]

/-- A buffer grows to a larger capacity. -/
theorem lt_of_grow {c n : Nat} (h : grow c = .ok n) : c < n := by
  unfold grow at h
  split at h
  · rename_i hsmall
    cases h
    exact hsmall
  · rename_i hlarge
    have hdouble := (Size.multiply_eq_ok_iff.mp h).2
    unfold minCapacity at hlarge
    omega

/-! ## Operations -/

/-- A buffer without elements and without storage. -/
def empty : Buffer α := ⟨#[], 0⟩

instance : Inhabited (Buffer α) := ⟨empty⟩

/-- The number of elements. -/
def size (b : Buffer α) : Nat := b.items.size

/-- Whether there are no elements. -/
def isEmpty (b : Buffer α) : Bool := b.items.isEmpty

/-- The elements in the order in which they were added. -/
def toList (b : Buffer α) : List α := b.items.toList

/-- The element at an index, if there is one. -/
def get? (b : Buffer α) (i : Nat) : Option α := b.items[i]?

/-- Adds an element, growing a full buffer first; the reply is the index of the element. A buffer
that cannot grow is left as it is. -/
@[inline] def push [Element α] (b : Buffer α) (a : α) : Outcome Overflow (Buffer α) Nat :=
  if b.items.size = b.capacity then
    match grow b.capacity with
    | .error e => .stop b e []
    | .ok capacity =>
      let old := b.capacity
      let items := resize b.items old capacity
      .done ⟨items.push a, capacity⟩ items.size [resized α old capacity]
  else .done ⟨b.items.push a, b.capacity⟩ b.items.size []

/-- A copy of a buffer, with storage for as many elements. -/
def clone [Element α] (b : Buffer α) : Buffer α × List Event :=
  (⟨resize b.items 0 b.capacity, b.capacity⟩, [resized α 0 b.capacity])

/-- Gives up the elements and the storage. -/
def free [Element α] (b : Buffer α) : Buffer α × List Event :=
  (⟨resize b.items b.capacity 0, 0⟩, [resized α b.capacity 0])

/-- Adds elements one after the other; the reply is their indices. -/
def pushAll [Element α] (b : Buffer α) : List α → Outcome Overflow (Buffer α) (List Nat)
  | [] => .done b [] []
  | a :: rest => (b.push a).andThen fun i b => (b.pushAll rest).map (i :: ·)

/-- The description of a buffer. -/
def tree [Element α] (b : Buffer α) : Text.Tree :=
  .record "GrowableBuf"
    [("count", .word (Text.decimal b.size)), ("capacity", .word (Text.decimal b.capacity)),
      ("items", .list (b.toList.map Element.tree))]

theorem get?_eq (b : Buffer α) (i : Nat) : b.get? i = b.toList[i]? := by
  simp [get?, toList]

/-- A full buffer grows before the element comes last. -/
theorem push_of_grow [Element α] {b : Buffer α} {capacity : Nat} (a : α)
    (hfull : b.size = b.capacity) (h : grow b.capacity = .ok capacity) :
    b.push a =
      .done ⟨b.items.push a, capacity⟩ b.size [resized α b.capacity capacity] := by
  have hlarger := lt_of_grow h
  have hsame : resize b.items b.capacity capacity = b.items :=
    resize_of_le (by omega) (Nat.le_of_lt hlarger)
  unfold size at hfull
  simp [push, size, hfull, h, hsame]

/-- Where there is room, the element comes last and nothing else happens. -/
theorem push_of_room [Element α] {b : Buffer α} (a : α) (hroom : b.size ≠ b.capacity) :
    b.push a = .done ⟨b.items.push a, b.capacity⟩ b.size [] := by
  unfold size at hroom
  simp [push, size, hroom]

/-- A full buffer that cannot grow is left as it is. -/
theorem push_of_stuck [Element α] {b : Buffer α} {e : Overflow} (a : α)
    (hfull : b.size = b.capacity) (h : grow b.capacity = .error e) : b.push a = .stop b e [] := by
  unfold size at hfull
  simp [push, hfull, h]

/-- A buffer that was given up is a new one. -/
@[simp] theorem fst_free [Element α] (b : Buffer α) : b.free.1 = empty := by
  simp [free, resize, empty]

end Buffer

/-! ## Pools -/

/-- A sequence of values that are named by their index. -/
structure Pool where
  values : Buffer Value
deriving Repr, DecidableEq

namespace Pool

/-- A pool without values. -/
def empty : Pool := ⟨.empty⟩

instance : Inhabited Pool := ⟨empty⟩

/-- The number of values. -/
def size (p : Pool) : Nat := p.values.size

/-- The number of values that the storage is meant for. -/
def capacity (p : Pool) : Nat := p.values.capacity

/-- Whether there are no values. -/
def isEmpty (p : Pool) : Bool := p.values.isEmpty

/-- The values in the order in which they were added. -/
def toList (p : Pool) : List Value := p.values.toList

/-- The value at an index, if there is one. -/
def get? (p : Pool) (i : Nat) : Option Value := p.values.get? i

/-- Adds a value; the reply is its index. -/
def write : Pool → Value → Outcome Overflow Pool Nat
  | ⟨values⟩, v => (values.push v).within Pool.mk

/-- Adds values one after the other; the reply is their indices. -/
def writeAll : Pool → List Value → Outcome Overflow Pool (List Nat)
  | ⟨values⟩, vs => (values.pushAll vs).within Pool.mk

/-- A copy of a pool. -/
def clone (p : Pool) : Pool × List Event := (⟨p.values.clone.1⟩, p.values.clone.2)

/-- Gives up the values and the storage. -/
def free (p : Pool) : Pool × List Event := (⟨p.values.free.1⟩, p.values.free.2)

/-- The description of a pool. -/
def tree (p : Pool) : Text.Tree := .record "ValueArray" [("values", p.values.tree)]

end Pool

end Bytecode
