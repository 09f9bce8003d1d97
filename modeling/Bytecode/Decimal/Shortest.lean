import Bytecode.Decimal.Basic

/-!
# The shortest digits of a double

Of all decimal numbers that read back as a given double, the shortest one is printed:
the fewest digits, of those the nearest, and the larger of two equally near ones.

A finite magnitude is a whole number of units of `2 ^ -1074`, so `5 ^ 1074` times that
number of units of `10 ^ -1074`: its exact digits.  A grid keeps the first few of them;
the two neighbours of the exact number on each grid are tried, the coarsest grid first.

* `Decimal.nearest_onGrid` — a number found on a grid reads back.
* `Decimal.nearest_exact` — so do the exact digits.
* `Decimal.nearest_shortest` — and so does the number that is printed.
-/

namespace Bytecode.Decimal

/-- The exact digits of a finite magnitude, down to the place of a unit. -/
def exactDigits (b : Nat) : Nat := Binary64.units b * Nat.pow 5 Binary64.unitPlace

/-- The length of a decimal numeral. -/
def digitCount (n : Nat) : Nat :=
  if n < 10000000000000000 then (Nat.toDigits 10 n).length
  else digitCount (n / 10000000000000000) + 16
termination_by n
decreasing_by exact Nat.div_lt_self (by omega) (by decide)

/-- The neighbour of the exact number that reads back as the magnitude `b`, on the grid of numbers
whose last digit stands `place` places before the last one of the exact number. -/
def onGrid (b exact place : Nat) : Option Decimal :=
  let step := Nat.pow 10 place
  let exponent := (place : Int) - Binary64.unitPlace
  let below : Decimal := ⟨exact / step, exponent⟩
  let above : Decimal := ⟨exact / step + 1, exponent⟩
  if below.nearest = b then
    if above.nearest = b ∧ (below.digits + above.digits) * step ≤ 2 * exact then some above
    else some below
  else if above.nearest = b then some above
  else none

/-- The most digits that a double needs. -/
def maxDigits : Nat := 17

/-- The shortest decimal number that reads back as a finite magnitude. -/
def shortest (b : Nat) : Decimal :=
  if b = 0 then ⟨0, 0⟩
  else
    let exact := exactDigits b
    let count := digitCount exact
    let found := (List.range maxDigits).findSome? fun n => onGrid b exact (count - 1 - n)
    (found.getD ⟨exact, -(Binary64.unitPlace : Int)⟩).strip

/-- A number found on a grid reads back. -/
theorem nearest_onGrid {b exact place : Nat} {d : Decimal} (h : onGrid b exact place = some d) :
    d.nearest = b := by
  simp only [onGrid] at h
  split at h
  · split at h
    · rename_i hboth
      cases h
      exact hboth.1
    · rename_i hbelow _
      cases h
      exact hbelow
  · split at h
    · rename_i habove
      cases h
      exact habove
    · contradiction

/-! ## The exact digits -/

theorem pow_ten (n : Nat) : Nat.pow 10 n = 1 <<< n * Nat.pow 5 n := by
  rw [Nat.shiftLeft_eq, Nat.one_mul, Nat.pow_eq, Nat.pow_eq, ← Nat.mul_pow]

/-- A power of five turns a binary fraction into a decimal one. -/
theorem nearest_scaled (u n : Nat) :
    nearest ⟨u * Nat.pow 5 n, -(n : Int)⟩ = Binary64.nearest u (1 <<< n) := by
  have hpos : 0 < Nat.pow 5 n := Nat.pow_pos (by decide)
  rw [nearest_neg, pow_ten, Binary64.nearest_mul _ _ hpos]

/-- The exact digits of a finite magnitude read back. -/
theorem nearest_exact {b : Nat} (h : b < Binary64.infinity) :
    nearest ⟨exactDigits b, -(Binary64.unitPlace : Int)⟩ = b :=
  (nearest_scaled (Binary64.units b) Binary64.unitPlace).trans (Binary64.nearest_units h)

/-- The number that is printed reads back. -/
theorem nearest_shortest {b : Nat} (h : b < Binary64.infinity) : (shortest b).nearest = b := by
  unfold shortest
  split
  · rename_i hzero
    rw [hzero]
    decide
  · rw [nearest_strip]
    cases hfound : (List.range maxDigits).findSome? fun n =>
        onGrid b (exactDigits b) (digitCount (exactDigits b) - 1 - n) with
    | none => exact nearest_exact h
    | some d =>
      obtain ⟨n, _, hhit⟩ := List.exists_of_findSome?_eq_some hfound
      exact nearest_onGrid hhit

end Bytecode.Decimal
