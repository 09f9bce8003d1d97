import Bytecode.Binary64

/-!
# Decimal numbers

A decimal number is a whole number of digits times a power of ten.

* `Decimal.nearest_eq_of_value` — numbers of one value have one nearest double.
* `Decimal.strip` — the fewest digits of the same value; `Decimal.nearest_strip` says
  that they have the same nearest double.
-/

namespace Bytecode

/-- The number `digits * 10 ^ exponent`. -/
structure Decimal where
  digits : Nat
  exponent : Int
deriving Repr, DecidableEq

namespace Decimal

/-- The number over its `denominator`, as a quotient of whole numbers. -/
def numerator (d : Decimal) : Nat := d.digits * Nat.pow 10 d.exponent.toNat

/-- The power of ten by which a negative exponent divides. -/
def denominator (d : Decimal) : Nat := Nat.pow 10 (-d.exponent).toNat

/-- The magnitude of the double nearest to the number. -/
def nearest (d : Decimal) : Nat := Binary64.nearest d.numerator d.denominator

/-- Moves the zeros at the end of the digits into the exponent. -/
def strip (d : Decimal) : Decimal :=
  if d.digits ≠ 0 ∧ d.digits % 10 = 0 then strip ⟨d.digits / 10, d.exponent + 1⟩ else d
termination_by d.digits
decreasing_by omega

theorem denominator_pos (d : Decimal) : 0 < d.denominator := Nat.pow_pos (by decide)

/-- Numbers of one value have one nearest double. -/
theorem nearest_eq_of_value {d e : Decimal}
    (h : d.numerator * e.denominator = e.numerator * d.denominator) : d.nearest = e.nearest := by
  rw [nearest, nearest, ← Binary64.nearest_mul d.numerator d.denominator e.denominator_pos, h,
    Nat.mul_comm d.denominator, Binary64.nearest_mul _ _ d.denominator_pos]

/-- A zero at the end of the digits can be moved into the exponent. -/
theorem nearest_shift (k : Nat) (e : Int) : nearest ⟨k, e + 1⟩ = nearest ⟨10 * k, e⟩ := by
  apply nearest_eq_of_value
  simp only [numerator, denominator, Nat.pow_eq]
  by_cases hsign : 0 ≤ e
  · have hup : (e + 1).toNat = e.toNat + 1 := by omega
    have hdown : (-e).toNat = (-(e + 1)).toNat := by omega
    rw [hup, hdown, Nat.pow_succ]
    ac_rfl
  · have hup : (e + 1).toNat = e.toNat := by omega
    have hdown : (-e).toNat = (-(e + 1)).toNat + 1 := by omega
    rw [hup, hdown, Nat.pow_succ]
    ac_rfl

/-- Moving all of them leaves the nearest double. -/
theorem nearest_strip (d : Decimal) : d.strip.nearest = d.nearest := by
  fun_induction strip d with
  | case1 d h ih => rw [ih, nearest_shift, Nat.mul_div_cancel' (Nat.dvd_of_mod_eq_zero h.2)]
  | case2 => rfl

theorem nearest_neg (k n : Nat) :
    nearest ⟨k, -(n : Int)⟩ = Binary64.nearest k (Nat.pow 10 n) := by
  have hup : (-(n : Int)).toNat = 0 := by omega
  have hdown : (- -(n : Int)).toNat = n := by omega
  simp only [nearest, numerator, denominator, hup, hdown]
  rw [show Nat.pow 10 0 = 1 from rfl, Nat.mul_one]

end Decimal

end Bytecode
