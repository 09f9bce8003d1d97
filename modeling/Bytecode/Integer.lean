import Bytecode.Text.Basic

/-!
# Reading integers

An integer is written as an optional sign and one digit or more.  It is read from left
to right against a range, and reading stops at the first character that is no digit or
that leads out of the range, whichever comes first.

* `Integer.readDigits` — reads digits behind those already read; `readDigits_cons` is one
  step of it.
* `Integer.readNat`, `Integer.readByte`, `Integer.readInt32` — read numbers of a range,
  behind their signs and the mark of their base.
-/

namespace Bytecode.Integer

/-- Why a text is not an integer of the range asked for. -/
inductive Fault where
  | empty
  | invalidDigit
  | tooLarge
  | tooSmall
deriving Repr, DecidableEq

/-- The words in which a fault is reported. -/
def Fault.message : Fault → String
  | .empty => "cannot parse integer from empty string"
  | .invalidDigit => "invalid digit found in string"
  | .tooLarge => "number too large to fit in target type"
  | .tooSmall => "number too small to fit in target type"

/-- The value of an ASCII digit or letter as a digit of the given base, which is at most 36. -/
def digit? (base : Nat) (c : Char) : Option Nat :=
  let d? : Option Nat :=
    if '0' ≤ c ∧ c ≤ '9' then some (c.toNat - '0'.toNat)
    else if 'a' ≤ c ∧ c ≤ 'z' then some (c.toNat - 'a'.toNat + 10)
    else if 'A' ≤ c ∧ c ≤ 'Z' then some (c.toNat - 'A'.toNat + 10)
    else none
  d?.filter (· < base)

/-- Reads digits behind those already worth `value`; a value above `largest` is the fault
`outside`. -/
def readDigits (base largest : Nat) (outside : Fault) (value : Nat) : Text → Except Fault Nat
  | [] => .ok value
  | c :: rest =>
    match digit? base c with
    | none => .error .invalidDigit
    | some d =>
      if base * value + d ≤ largest then
        readDigits base largest outside (base * value + d) rest
      else .error outside

/-- Reads a natural number up to `largest`, behind an optional plus sign. -/
def readNat (base largest : Nat) : Text → Except Fault Nat
  | [] => .error .empty
  | ['+'] => .error .invalidDigit
  | '+' :: digits => readDigits base largest .tooLarge 0 digits
  | digits => readDigits base largest .tooLarge 0 digits

/-- Reads a byte: decimal, or hexadecimal behind `0x` or `0X`. -/
def readByte : Text → Except Fault UInt8
  | '0' :: 'x' :: digits => (readNat 16 255 digits).map UInt8.ofNat
  | '0' :: 'X' :: digits => (readNat 16 255 digits).map UInt8.ofNat
  | digits => (readNat 10 255 digits).map UInt8.ofNat

/-- Reads a decimal integer of 32 bits, behind an optional sign. -/
def readInt32 : Text → Except Fault Int32
  | ['-'] => .error .invalidDigit
  | '-' :: digits =>
    (readDigits 10 0x80000000 .tooSmall 0 digits).map fun n => Int32.ofInt (-(n : Int))
  | digits => (readNat 10 0x7fffffff digits).map fun n => Int32.ofInt n

/-- One step of reading: the next digit, and whether the number is still in range. -/
theorem readDigits_cons {base largest value : Nat} {outside : Fault} {c : Char} {rest : Text} :
    readDigits base largest outside value (c :: rest) =
      match digit? base c with
      | none => .error .invalidDigit
      | some d =>
        if base * value + d ≤ largest then
          readDigits base largest outside (base * value + d) rest
        else .error outside := rfl

end Bytecode.Integer
