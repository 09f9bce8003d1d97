import Bytecode.Decimal.Basic
import Bytecode.Text.Basic

/-!
# Writing and reading decimal numbers

A decimal number is written positionally, `0.0125`, or in scientific form, `1.25e-2`.  A
layout says when each form is used and how whole numbers end.

What is read is unsigned: a run of digits with at most one point before, inside or
behind it, and at most one exponent, which is `e` or `E`, an optional sign and digits.

* `Decimal.Layout.write` — writes a number in the form that a layout asks for.
* `Decimal.read?` — reads a number that takes up a whole text.
-/

namespace Bytecode.Decimal

/-! ## Writing -/

/-- The decisions of a written form. -/
structure Layout where
  /-- Whether a whole number in positional form ends in `.0`. -/
  wholeFraction : Bool
  /-- The places of the leading digit that are written positionally, from the first up to but not
  including the second; without it, all are. -/
  positional : Option (Int × Int)
deriving Repr, DecidableEq

/-- Digits around a point, with zeros up to it where the digits do not reach it. -/
def positional (wholeFraction : Bool) (d : Decimal) : Text :=
  let digits := Text.decimal d.digits
  if 0 ≤ d.exponent then
    digits ++ List.replicate d.exponent.toNat '0' ++ (if wholeFraction then ['.', '0'] else [])
  else
    let places := (-d.exponent).toNat
    if places < digits.length then
      digits.take (digits.length - places) ++ '.' :: digits.drop (digits.length - places)
    else '0' :: '.' :: (List.replicate (places - digits.length) '0' ++ digits)

/-- The place of the leading digit: 0 for the ones, 1 for the tens, -1 for the tenths. -/
def leadingPlace (d : Decimal) : Int :=
  d.exponent + (Text.decimal d.digits).length - 1

/-- One digit, the others behind a point, and the place of the first. -/
def scientific (d : Decimal) : Text :=
  let digits := Text.decimal d.digits
  let fraction := if digits.length = 1 then [] else '.' :: digits.drop 1
  digits.take 1 ++ fraction ++ 'e' :: Text.signedDecimal d.leadingPlace

/-- Writes a number in the form that the layout asks for. -/
def Layout.write (layout : Layout) (d : Decimal) : Text :=
  match layout.positional with
  | none => d.positional layout.wholeFraction
  | some (low, high) =>
    if low ≤ d.leadingPlace ∧ d.leadingPlace < high then d.positional layout.wholeFraction
    else d.scientific

/-! ## Reading -/

/-- Splits a text behind its leading run of digits. -/
def takeDigits (t : Text) : Text × Text :=
  (t.takeWhile Char.isDigit, t.dropWhile Char.isDigit)

/-- The bound from which on further digits of an exponent are passed over. -/
def exponentBound : Nat := 0x10000

/-- The value of the digits of an exponent. -/
def exponentValue (digits : Text) : Nat :=
  digits.foldl (fun e c => if e < exponentBound then 10 * e + (c.toNat - '0'.toNat) else e) 0

/-- Reads what stands behind the digits of a number: nothing, or an exponent. -/
def readExponent : Text → Option Int
  | [] => some 0
  | c :: rest =>
    if c = 'e' ∨ c = 'E' then
      let (negative, unsigned) : Bool × Text := match rest with
        | '-' :: unsigned => (true, unsigned)
        | '+' :: unsigned => (false, unsigned)
        | unsigned => (false, unsigned)
      let (digits, left) := takeDigits unsigned
      if digits.isEmpty ∨ !left.isEmpty then none
      else if negative then some (-(exponentValue digits : Int))
      else some (exponentValue digits)
    else none

/-- Reads an unsigned number that takes up the whole text. -/
def read? (t : Text) : Option Decimal :=
  let (whole, rest) := takeDigits t
  let (fraction, rest) : Text × Text := match rest with
    | '.' :: rest => takeDigits rest
    | rest => ([], rest)
  if whole.isEmpty ∧ fraction.isEmpty then none
  else
    (readExponent rest).map fun e =>
      ⟨Nat.ofDigitChars 10 (whole ++ fraction) 0, e - (fraction.length : Int)⟩

end Bytecode.Decimal
