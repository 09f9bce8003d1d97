/-!
# Doubles as whole numbers of units

The low 63 bits of a double are its magnitude: eleven bits of exponent above 52 bits of
fraction.  Magnitudes below `Binary64.infinity` are finite, and a finite one is a whole
number of units of `2 ^ -1074`.  Magnitudes are ordered as the numbers they stand for.

* `Binary64.units` — the number of units in a finite magnitude.
* `Binary64.nearest` — the magnitude nearest to a quotient, ties to the even one, and
  infinity from half a step above the largest finite magnitude.
* `Binary64.nearest_mul` — the answer depends on the quotient alone.
* `Binary64.nearest_units` — a finite magnitude is the one nearest to its own number of
  units.
-/

namespace Bytecode.Binary64

/-- The number of magnitudes with the same exponent field: there are 52 bits of fraction. -/
def binade : Nat := 0x10000000000000

/-- The magnitude of infinity; the ones above it stand for no number. -/
def infinity : Nat := 0x7ff * binade

/-- The bit above a magnitude, which is the sign. -/
def signBit : Nat := 0x8000000000000000

/-- The binary place of a unit, counted down from the point. -/
def unitPlace : Nat := 1074

/-- The number of units in one. -/
def unitsInOne : Nat := 1 <<< unitPlace

/-- The number of units in a finite magnitude. An exponent field of zero stands for the same binade
as a field of one, without the leading bit. -/
def units (b : Nat) : Nat :=
  if b / binade = 0 then b % binade else (binade + b % binade) <<< (b / binade - 1)

/-! ## Rounding -/

/-- The whole number nearest to a quotient; of two equally near, the even one. -/
def roundQuotient (num den : Nat) : Nat :=
  let q := num / den
  let r := num % den
  if 2 * r < den ∨ (2 * r = den ∧ q % 2 = 0) then q else q + 1

/-- The magnitude nearest to `num / den`. Where the quotient lies in the binade `shift`, its
neighbours are multiples of `2 ^ shift` units; a carry into the next binade carries into the
exponent field. -/
def nearest (num den : Nat) : Nat :=
  let n := num * unitsInOne
  let shift := (n / den).log2 - 52
  min (shift * binade + roundQuotient n (den <<< shift)) infinity

/-- Rounding looks at the quotient alone. -/
theorem roundQuotient_mul {k : Nat} (num den : Nat) (h : 0 < k) :
    roundQuotient (num * k) (den * k) = roundQuotient num den := by
  unfold roundQuotient
  simp only [Nat.mul_div_mul_right _ _ h, Nat.mul_mod_mul_right, ← Nat.mul_assoc,
    Nat.mul_lt_mul_right h, Nat.mul_left_inj (Nat.pos_iff_ne_zero.mp h)]

theorem roundQuotient_one (n : Nat) : roundQuotient n 1 = n := by
  simp [roundQuotient, Nat.mod_one]

/-- The nearest magnitude depends on the quotient alone. -/
theorem nearest_mul {k : Nat} (num den : Nat) (h : 0 < k) :
    nearest (num * k) (den * k) = nearest num den := by
  have hnum : num * k * unitsInOne = num * unitsInOne * k := by
    rw [Nat.mul_assoc, Nat.mul_comm k, ← Nat.mul_assoc]
  have hden (s : Nat) : (den * k) <<< s = den <<< s * k := by
    rw [Nat.shiftLeft_eq, Nat.shiftLeft_eq, Nat.mul_assoc, Nat.mul_comm k, ← Nat.mul_assoc]
  simp only [nearest, hnum, hden, Nat.mul_div_mul_right _ _ h, roundQuotient_mul _ _ h]

/-! ## Finite magnitudes are exact -/

theorem one_shiftLeft_pos (n : Nat) : 0 < 1 <<< n := by
  rw [Nat.shiftLeft_eq, Nat.one_mul]
  exact Nat.pow_pos (by decide)

theorem unitsInOne_pos : 0 < unitsInOne := one_shiftLeft_pos unitPlace

/-- With its leading bit, a significand fills its binade from the bottom. -/
theorem log2_normal {f : Nat} (e : Nat) (h : f < binade) :
    ((binade + f) <<< e).log2 = 52 + e := by
  have hpos : (binade + f) <<< e ≠ 0 := by
    rw [Nat.shiftLeft_eq]
    exact Nat.mul_ne_zero (by simp [binade]) (Nat.ne_of_gt (Nat.pow_pos (by decide)))
  rw [Nat.log2_eq_iff hpos, Nat.shiftLeft_eq]
  constructor
  · rw [Nat.pow_add]
    exact Nat.mul_le_mul_right _ (by simp [binade])
  · rw [Nat.add_right_comm, Nat.pow_add]
    exact Nat.mul_lt_mul_of_pos_right (by simp [binade] at h ⊢; omega) (Nat.pow_pos (by decide))

theorem log2_subnormal {f : Nat} (h : f < binade) : f.log2 - 52 = 0 := by
  by_cases hzero : f = 0
  · simp [hzero]
  · have hlog := (Nat.log2_lt hzero).mpr (show f < 2 ^ 52 by simpa [binade] using h)
    omega

/-- A finite magnitude is the one nearest to its own number of units. -/
theorem nearest_units {b : Nat} (h : b < infinity) : nearest (units b) unitsInOne = b := by
  have hwhole : units b * unitsInOne / unitsInOne = units b :=
    Nat.mul_div_cancel _ unitsInOne_pos
  have hscale (s : Nat) : roundQuotient (units b * unitsInOne) (unitsInOne <<< s) =
      roundQuotient (units b) (1 <<< s) := by
    rw [← roundQuotient_mul (units b) (1 <<< s) unitsInOne_pos, Nat.shiftLeft_eq, Nat.shiftLeft_eq,
      Nat.one_mul, Nat.mul_comm unitsInOne]
  have hfields := Nat.div_add_mod b binade
  simp only [nearest, hwhole, hscale]
  by_cases hsubnormal : b / binade = 0
  · -- without the leading bit, the fraction is the number of units
    rw [hsubnormal, Nat.mul_zero, Nat.zero_add] at hfields
    have hsmall : b < binade := by
      rw [← hfields]
      exact Nat.mod_lt _ (by simp [binade])
    rw [units, if_pos hsubnormal, hfields, log2_subnormal hsmall, Nat.zero_mul, Nat.zero_add,
      show 1 <<< 0 = 1 from rfl, roundQuotient_one]
    exact Nat.min_eq_left (Nat.le_of_lt h)
  · have hsignificand : roundQuotient ((binade + b % binade) <<< (b / binade - 1))
        (1 <<< (b / binade - 1)) = binade + b % binade := by
      rw [Nat.shiftLeft_eq, Nat.shiftLeft_eq, roundQuotient_mul _ _ (Nat.pow_pos (by decide)),
        roundQuotient_one]
    have hcarry : (b / binade - 1) * binade + (binade + b % binade) = b := by
      rw [← Nat.add_assoc, ← Nat.succ_mul, Nat.succ_eq_add_one,
        Nat.sub_add_cancel (Nat.pos_of_ne_zero hsubnormal), Nat.mul_comm]
      exact hfields
    rw [units, if_neg hsubnormal, log2_normal _ (Nat.mod_lt _ (by simp [binade])),
      Nat.add_sub_cancel_left, hsignificand, hcarry]
    exact Nat.min_eq_left (Nat.le_of_lt h)

end Bytecode.Binary64
