import Bytecode.Decimal.Notation
import Bytecode.Decimal.Shortest
import Bytecode.Text.Tree

/-!
# Values

A value is a double, kept as its 64 bits.  Values are compared as numbers, so that both
zeros are equal and a value that is not a number is equal to none; they are told apart by
their bits.

* `Value.text` — the shortest digits that read back, always positional.
* `Value.read` — the value a text stands for, rounded to the nearest double.
-/

namespace Bytecode

/-- A double, by its bits. -/
structure Value where
  bits : UInt64
deriving Repr, DecidableEq

namespace Value

/-- The bits below the sign. -/
def magnitude (v : Value) : Nat := v.bits.toNat % Binary64.signBit

/-- Whether the sign bit is set. -/
def isNegative (v : Value) : Bool := Binary64.signBit ≤ v.bits.toNat

/-- Whether the value stands for no number. -/
def isNaN (v : Value) : Bool := Binary64.infinity < v.magnitude

/-- The value with the given sign and magnitude. -/
def ofMagnitude (negative : Bool) (magnitude : Nat) : Value :=
  ⟨UInt64.ofNat (if negative then Binary64.signBit + magnitude else magnitude)⟩

/-- The value nearest to a decimal number with a sign. -/
def ofDecimal (negative : Bool) (d : Decimal) : Value := ofMagnitude negative d.nearest

/-- The value nearest to an integer. -/
def ofInt (i : Int) : Value := ofDecimal (i < 0) ⟨i.natAbs, 0⟩

/-- Positive zero. -/
def zero : Value := ⟨0⟩

/-- Positive infinity. -/
def infinity : Value := ofMagnitude false Binary64.infinity

/-- A value that stands for no number. -/
def nan : Value := ofMagnitude false (Binary64.infinity + Binary64.binade / 2)

instance : Inhabited Value := ⟨zero⟩

/-! ## Comparison -/

/-- A whole number that orders the values as their numbers do. -/
def rank (v : Value) : Int := if v.isNegative then -(v.magnitude : Int) else v.magnitude

/-- How two values compare as numbers; there is no answer if one of them is none. -/
def compare? (a b : Value) : Option Ordering :=
  if a.isNaN || b.isNaN then none else some (compare a.rank b.rank)

/-- Whether two values are equal as numbers. -/
def sameNumber (a b : Value) : Bool := a.compare? b == some .eq

/-! ## Writing -/

/-- How a value is written: positionally, and a whole number without a point. -/
def layout : Decimal.Layout := ⟨false, none⟩

/-- How a value is described: a whole number ends in `.0`, and the scientific form is used from
`10 ^ 16` on and below `10 ^ -4`. -/
def describedLayout : Decimal.Layout := ⟨true, some (-4, 16)⟩

/-- Writes a value: its sign and shortest digits, or a word. -/
def write (layout : Decimal.Layout) (v : Value) : Text :=
  if v.isNaN then "NaN".toList
  else
    let unsigned :=
      if v.magnitude = Binary64.infinity then "inf".toList
      else layout.write (Decimal.shortest v.magnitude)
    if v.isNegative then '-' :: unsigned else unsigned

/-- The text of a value. -/
def text (v : Value) : Text := v.write layout

/-- The description of a value. -/
def tree (v : Value) : Text.Tree := .tuple "Value" [.word (v.write describedLayout)]

/-! ## Reading -/

/-- Why a text does not stand for a value. -/
inductive Fault where
  | empty
  | invalid
deriving Repr, DecidableEq

/-- The words in which a fault is reported. -/
def Fault.message : Fault → String
  | .empty => "cannot parse float from empty string"
  | .invalid => "invalid float literal"

/-- Reads what stands behind the sign: a number, or the words for infinity and for no number in
any case of their letters. -/
def readUnsigned (negative : Bool) (t : Text) : Except Fault Value :=
  match Decimal.read? t with
  | some d => .ok (ofDecimal negative d)
  | none =>
    let word := t.map Char.toLower
    if word = "inf".toList ∨ word = "infinity".toList then
      .ok (ofMagnitude negative Binary64.infinity)
    else if word = "nan".toList then .ok (ofMagnitude negative nan.magnitude)
    else .error .invalid

/-- Reads a value behind an optional sign. -/
def read : Text → Except Fault Value
  | [] => .error .empty
  | '-' :: unsigned => readUnsigned true unsigned
  | '+' :: unsigned => readUnsigned false unsigned
  | unsigned => readUnsigned false unsigned

end Value

end Bytecode
