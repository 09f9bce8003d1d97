import Bytecode.Decimal.Basic
import Mathlib.Algebra.Order.Field.Basic
import Mathlib.Algebra.Order.Field.Rat
import Mathlib.Algebra.Order.Ring.Abs
import Mathlib.Order.Monotone.Basic
import Mathlib.Tactic.Linarith
import Mathlib.Tactic.Ring

/-!
# Rounding to the nearest double

Each magnitude stands for a number, and the magnitudes are ordered as these numbers
are.  A quotient lies between two magnitudes that follow each other, and is rounded
to the nearer one; of two equally near ones, to the even one.

* `Binary64.value` — the number that a magnitude stands for.
* `Binary64.units_strictMono` — magnitudes are ordered as their numbers.
* `Binary64.exists_neighbours` — a quotient is rounded to one of its neighbours.
* `Binary64.IsNearest` — no magnitude is nearer to a number, and ties are broken.
* `Binary64.isNearest_nearest` — a quotient is rounded to the nearest magnitude.
* `Binary64.nearest_mono` — greater quotients are rounded to greater magnitudes.
* `Decimal.isNearest_value` — a decimal number is read as the nearest magnitude.
-/

namespace Bytecode

namespace Binary64

/-! ## Magnitudes by their significands -/

section Significands

variable {b shift q : Nat}

/-- A significand in a binade: it has the leading bit, except in the first one. -/
structure IsSignificand (shift q : Nat) : Prop where
  low : shift = 0 ∨ binade ≤ q
  high : q < 2 * binade

theorem units_of_lt (h : q < binade) : units q = q := by
  rw [units, if_pos (Nat.div_eq_of_lt h), Nat.mod_eq_of_lt h]

theorem units_of_normal (h : q < binade) :
    units ((shift + 1) * binade + q) = (binade + q) * 2 ^ shift := by
  have hbinade : 0 < binade := by decide
  have hdiv : ((shift + 1) * binade + q) / binade = shift + 1 := by
    rw [Nat.add_comm, Nat.add_mul_div_right _ _ hbinade, Nat.div_eq_of_lt h, Nat.zero_add]
  have hmod : ((shift + 1) * binade + q) % binade = q := by
    rw [Nat.add_comm, Nat.add_mul_mod_self_right, Nat.mod_eq_of_lt h]
  rw [units, hdiv, hmod, if_neg (Nat.succ_ne_zero _), Nat.shiftLeft_eq, Nat.add_sub_cancel]

/-- The number of units in a magnitude is its significand, shifted to its binade. -/
theorem units_eq (h : IsSignificand shift q) : units (shift * binade + q) = q * 2 ^ shift := by
  rcases Nat.lt_or_ge q binade with hlt | hge
  · have hshift : shift = 0 := h.low.resolve_right (Nat.not_le.2 hlt)
    rw [hshift, Nat.zero_mul, Nat.zero_add, units_of_lt hlt, Nat.pow_zero, Nat.mul_one]
  · obtain ⟨f, rfl⟩ := Nat.exists_eq_add_of_le hge
    have hf : f < binade := by
      have := h.high
      omega
    rw [← units_of_normal hf, Nat.succ_mul, Nat.add_assoc]

/-- So is that in the next magnitude, even where it is in the next binade. -/
theorem units_succ (h : IsSignificand shift q) :
    units (shift * binade + q + 1) = (q + 1) * 2 ^ shift := by
  rcases Nat.lt_or_ge (q + 1) (2 * binade) with hlt | hge
  · rw [Nat.add_assoc]
    exact units_eq ⟨h.low.imp_right Nat.le_succ_of_le, hlt⟩
  · have hq : q + 1 = 2 * binade := Nat.le_antisymm h.high hge
    have hcarry : shift * binade + q + 1 = (shift + 1 + 1) * binade + 0 := by
      rw [Nat.add_assoc, hq]
      ring
    rw [hcarry, units_of_normal (by decide), hq]
    ring

theorem exists_significand (b : Nat) :
    ∃ shift q, IsSignificand shift q ∧ b = shift * binade + q := by
  have hfields := Nat.div_add_mod b binade
  have hfraction : b % binade < binade := Nat.mod_lt _ (by decide)
  rcases Nat.eq_zero_or_pos (b / binade) with hzero | hpos
  · exact ⟨0, b % binade, ⟨.inl rfl, by omega⟩, by rw [hzero] at hfields; omega⟩
  · obtain ⟨shift, hshift⟩ := Nat.exists_eq_add_of_le' hpos
    refine ⟨shift, binade + b % binade, ⟨.inr (Nat.le_add_right _ _), by omega⟩, ?_⟩
    calc b = binade * (shift + 1) + b % binade := by rw [← hshift]; exact hfields.symm
      _ = shift * binade + (binade + b % binade) := by ring

/-- Magnitudes are ordered as the numbers of their units. -/
theorem units_strictMono : StrictMono units := by
  refine strictMono_nat_of_lt_succ fun b => ?_
  obtain ⟨shift, q, h, rfl⟩ := exists_significand b
  rw [units_eq h, units_succ h]
  exact Nat.mul_lt_mul_of_pos_right (Nat.lt_succ_self q) (Nat.two_pow_pos shift)

/-- The step to the next magnitude is not much smaller than the magnitude. -/
theorem units_succ_le (b : Nat) :
    2 * binade * units b + units (b + 1) ≤ 2 * binade * units (b + 1) := by
  obtain ⟨shift, q, h, rfl⟩ := exists_significand b
  rw [units_eq h, units_succ h]
  calc 2 * binade * (q * 2 ^ shift) + (q + 1) * 2 ^ shift
      ≤ 2 * binade * (q * 2 ^ shift) + 2 * binade * 2 ^ shift :=
        Nat.add_le_add_left (Nat.mul_le_mul_right _ h.high) _
    _ = 2 * binade * ((q + 1) * 2 ^ shift) := by ring

end Significands

/-! ## Neighbours -/

section Neighbours

variable {num den : Nat}

/-- The leading 53 bits of a number are a significand. -/
theorem isSignificand_div (n : Nat) : IsSignificand (n.log2 - 52) (n / 2 ^ (n.log2 - 52)) := by
  rcases Nat.lt_or_ge n.log2 53 with hlt | hge
  · have hn : n < 2 ^ 53 := by
      by_cases hzero : n = 0
      · rw [hzero]
        decide
      · exact (Nat.log2_lt hzero).1 hlt
    have hshift : n.log2 - 52 = 0 := by omega
    rw [hshift, Nat.pow_zero, Nat.div_one]
    exact ⟨.inl rfl, by simpa [binade] using hn⟩
  · have hzero : n ≠ 0 := by
      rintro rfl
      simp at hge
    obtain ⟨hlow, hhigh⟩ := (Nat.log2_eq_iff hzero).1 rfl
    obtain ⟨shift, hshift⟩ := Nat.exists_eq_add_of_le (show 52 ≤ n.log2 by omega)
    rw [hshift] at hlow hhigh
    rw [hshift, Nat.add_sub_cancel_left]
    refine ⟨.inr ?_, ?_⟩
    · rw [Nat.le_div_iff_mul_le (Nat.two_pow_pos shift), show binade = 2 ^ 52 from rfl,
        ← Nat.pow_add]
      exact hlow
    · rw [Nat.div_lt_iff_lt_mul (Nat.two_pow_pos shift), show 2 * binade = 2 ^ 53 from rfl,
        ← Nat.pow_add, show 53 + shift = 52 + shift + 1 by omega]
      exact hhigh

/-- A quotient, counted in units. -/
def quotient (num den : Nat) : ℚ := (num * unitsInOne : Nat) / den

/-- The magnitude next to a quotient, of the two neighbours `b` and `b + 1`. -/
def nearer (y : ℚ) (b : Nat) : Nat :=
  if 2 * y < units b + units (b + 1) ∨ 2 * y = units b + units (b + 1) ∧ b % 2 = 0 then b else b + 1

theorem quotient_lt_iff (hden : 0 < den) {k : Nat} :
    quotient num den < k ↔ num * unitsInOne < k * den := by
  rw [quotient, div_lt_iff₀ (Nat.cast_pos.2 hden)]
  exact_mod_cast Iff.rfl

theorem le_quotient_iff (hden : 0 < den) {k : Nat} :
    k ≤ quotient num den ↔ k * den ≤ num * unitsInOne := by
  rw [quotient, le_div_iff₀ (Nat.cast_pos.2 hden)]
  exact_mod_cast Iff.rfl

theorem two_mul_quotient_lt_iff (hden : 0 < den) {k : Nat} :
    2 * quotient num den < k ↔ 2 * (num * unitsInOne) < k * den := by
  rw [quotient, ← mul_div_assoc, div_lt_iff₀ (Nat.cast_pos.2 hden)]
  exact_mod_cast Iff.rfl

theorem two_mul_quotient_eq_iff (hden : 0 < den) {k : Nat} :
    2 * quotient num den = k ↔ 2 * (num * unitsInOne) = k * den := by
  rw [quotient, ← mul_div_assoc, div_eq_iff (Nat.cast_pos.2 hden).ne']
  exact_mod_cast Iff.rfl

/-- Rounding in the binade `shift`: half a step decides, and a tie goes to the even significand. -/
theorem add_roundQuotient {n d k : Nat} (hk : k % 2 = 0) :
    k + roundQuotient n d =
      if 2 * n < (2 * (n / d) + 1) * d ∨ 2 * n = (2 * (n / d) + 1) * d ∧ (k + n / d) % 2 = 0 then
        k + n / d
      else k + n / d + 1 := by
  have hsum : (2 * (n / d) + 1) * d = 2 * (d * (n / d)) + d := by ring
  have hmod := Nat.div_add_mod n d
  have hrem : 2 * (n % d) < d ∨ 2 * (n % d) = d ∧ n / d % 2 = 0 ↔
      2 * n < (2 * (n / d) + 1) * d ∨
        2 * n = (2 * (n / d) + 1) * d ∧ (k + n / d) % 2 = 0 := by
    rw [hsum]
    omega
  simp only [roundQuotient, hrem]
  split <;> rfl

/-- A quotient is rounded to one of its neighbours. -/
theorem exists_neighbours (num : Nat) (hden : 0 < den) :
    ∃ b, units b ≤ quotient num den ∧ quotient num den < units (b + 1) ∧
      nearest num den = min (nearer (quotient num den) b) infinity := by
  -- The binade is that of the whole part, so its significand is that of the lower neighbour.
  obtain ⟨shift, hshift⟩ : ∃ s, s = (num * unitsInOne / den).log2 - 52 := ⟨_, rfl⟩
  have hsignificand := isSignificand_div (num * unitsInOne / den)
  rw [← hshift, Nat.div_div_eq_div_mul] at hsignificand
  have hnearest : nearest num den =
      min (shift * binade + roundQuotient (num * unitsInOne) (den * 2 ^ shift)) infinity := by
    rw [nearest, ← hshift, Nat.shiftLeft_eq]
  have hd : 0 < den * 2 ^ shift := Nat.mul_pos hden (Nat.two_pow_pos shift)
  have heven : shift * binade % 2 = 0 := by
    rw [Nat.mul_mod, show binade % 2 = 0 from rfl, Nat.mul_zero, Nat.zero_mod]
  have hlow := Nat.div_mul_le_self (num * unitsInOne) (den * 2 ^ shift)
  have hhigh := Nat.lt_mul_div_succ (num * unitsInOne) hd
  rw [add_roundQuotient heven] at hnearest
  generalize num * unitsInOne / (den * 2 ^ shift) = q at *
  have hlower := units_eq hsignificand
  have hupper := units_succ hsignificand
  refine ⟨shift * binade + q, ?_, ?_, ?_⟩
  · rw [le_quotient_iff hden, hlower]
    calc q * 2 ^ shift * den = q * (den * 2 ^ shift) := by ring
      _ ≤ num * unitsInOne := hlow
  · rw [quotient_lt_iff hden, hupper]
    calc num * unitsInOne < den * 2 ^ shift * (q + 1) := hhigh
      _ = (q + 1) * 2 ^ shift * den := by ring
  · have hsum : (units (shift * binade + q) + units (shift * binade + q + 1)) * den =
        (2 * q + 1) * (den * 2 ^ shift) := by
      rw [hlower, hupper]
      ring
    rw [hnearest, nearer]
    simp only [← Nat.cast_add, two_mul_quotient_lt_iff hden, two_mul_quotient_eq_iff hden, hsum]

end Neighbours

section Nearer

variable {y y' : ℚ} {b c : Nat}

theorem units_le_units (h : b ≤ c) : (units b : ℚ) ≤ units c :=
  Nat.cast_le.2 (units_strictMono.monotone h)

theorem units_lt_units (h : b < c) : (units b : ℚ) < units c :=
  Nat.cast_lt.2 (units_strictMono h)

/-- The lower neighbour is taken up to the middle, the upper one from there on. -/
theorem nearer_cases (y : ℚ) (b : Nat) :
    (nearer y b = b ∧ 2 * y ≤ units b + units (b + 1) ∧
        (2 * y = units b + units (b + 1) → b % 2 = 0)) ∨
      nearer y b = b + 1 ∧ units b + units (b + 1) ≤ 2 * y ∧
        (2 * y = units b + units (b + 1) → (b + 1) % 2 = 0) := by
  rw [nearer]
  split
  · rename_i h
    refine .inl ⟨rfl, ?_, fun htie => ?_⟩
    · exact h.elim le_of_lt fun htie => htie.1.le
    · exact h.elim (fun hlt => absurd htie hlt.ne) And.right
  · rename_i h
    obtain ⟨hlt, htie⟩ := not_or.1 h
    refine .inr ⟨rfl, not_lt.1 hlt, fun heq => ?_⟩
    have hodd : ¬ b % 2 = 0 := fun heven => htie ⟨heq, heven⟩
    omega

theorem le_nearer (y : ℚ) (b : Nat) : b ≤ nearer y b := by
  rcases nearer_cases y b with ⟨h, -⟩ | ⟨h, -⟩ <;> omega

theorem nearer_le (y : ℚ) (b : Nat) : nearer y b ≤ b + 1 := by
  rcases nearer_cases y b with ⟨h, -⟩ | ⟨h, -⟩ <;> omega

theorem abs_sub_of_le {k : Nat} (h : units k ≤ y) : |y - units k| = y - units k :=
  abs_of_nonneg (sub_nonneg.2 h)

theorem abs_sub_of_ge {k : Nat} (h : y ≤ units k) : |y - units k| = units k - y := by
  rw [abs_sub_comm, abs_of_nonneg (sub_nonneg.2 h)]

section Between

variable (hlow : units b ≤ y) (hhigh : y < units (b + 1))
include hlow hhigh

/-- No magnitude is nearer than the nearer one of the two neighbours. -/
theorem abs_sub_nearer_le (c : Nat) : |y - units (nearer y b)| ≤ |y - units c| := by
  have hlower := abs_sub_of_le hlow
  have hupper := abs_sub_of_ge hhigh.le
  rcases Nat.lt_or_ge b c with hlt | hge
  · have hc := units_le_units (Nat.succ_le_of_lt hlt)
    rw [abs_sub_of_ge (hhigh.le.trans hc)]
    rcases nearer_cases y b with ⟨h, hmiddle, -⟩ | ⟨h, hmiddle, -⟩ <;> rw [h] <;> linarith
  · have hc := units_le_units hge
    rw [abs_sub_of_le (hc.trans hlow)]
    rcases nearer_cases y b with ⟨h, hmiddle, -⟩ | ⟨h, hmiddle, -⟩ <;> rw [h] <;> linarith

/-- If another one is as near, the number is in the middle between the two, and the even one is
taken. -/
theorem even_nearer (hne : c ≠ nearer y b) (htie : |y - units c| = |y - units (nearer y b)|) :
    nearer y b % 2 = 0 := by
  have hlower := abs_sub_of_le hlow
  have hupper := abs_sub_of_ge hhigh.le
  rcases nearer_cases y b with ⟨h, hmiddle, heven⟩ | ⟨h, hmiddle, heven⟩ <;> rw [h] at hne htie ⊢
  · refine heven (le_antisymm hmiddle ?_)
    rcases Nat.lt_or_gt_of_ne hne with hlt | hgt
    · have hc := units_lt_units hlt
      have := abs_sub_of_le (hc.le.trans hlow)
      linarith
    · have hc := units_le_units (Nat.succ_le_of_lt hgt)
      have := abs_sub_of_ge (hhigh.le.trans hc)
      linarith
  · refine heven (le_antisymm ?_ hmiddle)
    rcases Nat.lt_or_gt_of_ne hne with hlt | hgt
    · have hc := units_le_units (Nat.le_of_lt_succ hlt)
      have := abs_sub_of_le (hc.trans hlow)
      linarith
    · have hc := units_lt_units hgt
      have := abs_sub_of_ge (hhigh.le.trans hc.le)
      linarith

end Between

theorem nearer_mono (h : y ≤ y') : nearer y b ≤ nearer y' b := by
  rcases nearer_cases y b with ⟨hb, -⟩ | ⟨hb, hmiddle, htie⟩
  · rw [hb]
    exact le_nearer y' b
  · rcases nearer_cases y' b with ⟨hb', hmiddle', htie'⟩ | ⟨hb', -⟩
    · -- Both numbers are in the middle, so they are equal.
      have heq : 2 * y = units b + units (b + 1) := by linarith
      have heq' : 2 * y' = units b + units (b + 1) := by linarith
      have := htie heq
      have := htie' heq'
      omega
    · rw [hb, hb']

end Nearer

/-! ## The nearest magnitude -/

/-- The number that a magnitude stands for.  Infinity stands where the next number would be. -/
def value (b : Nat) : ℚ := units b / unitsInOne

/-- No magnitude is nearer to a number, and if another is as near, this one is even. -/
structure IsNearest (x : ℚ) (b : Nat) : Prop where
  le_infinity : b ≤ infinity
  near : ∀ c ≤ infinity, |x - value b| ≤ |x - value c|
  even : ∀ c ≤ infinity, c ≠ b → |x - value c| = |x - value b| → b % 2 = 0

section Nearest

variable {num den num' den' b c : Nat}

theorem unitsInOne_cast_pos : (0 : ℚ) < unitsInOne := Nat.cast_pos.2 unitsInOne_pos

theorem quotient_eq (num den : Nat) : quotient num den = (num / den : ℚ) * unitsInOne := by
  rw [quotient, Nat.cast_mul, mul_div_right_comm]

/-- Distances can be measured in units. -/
theorem abs_sub_value (num den b : Nat) :
    |(num / den : ℚ) - value b| = |quotient num den - units b| / unitsInOne := by
  rw [quotient_eq, value, ← abs_of_pos unitsInOne_cast_pos, ← abs_div,
    abs_of_pos unitsInOne_cast_pos, sub_div, mul_div_cancel_right₀ _ unitsInOne_cast_pos.ne']

theorem abs_sub_value_le_iff :
    |(num / den : ℚ) - value b| ≤ |(num / den : ℚ) - value c| ↔
      |quotient num den - units b| ≤ |quotient num den - units c| := by
  rw [abs_sub_value, abs_sub_value, div_le_div_iff_of_pos_right unitsInOne_cast_pos]

theorem abs_sub_value_eq_iff :
    |(num / den : ℚ) - value b| = |(num / den : ℚ) - value c| ↔
      |quotient num den - units b| = |quotient num den - units c| := by
  rw [abs_sub_value, abs_sub_value, div_left_inj' unitsInOne_cast_pos.ne']

/-- **A quotient is rounded to the nearest magnitude, and a tie to the even one.** -/
theorem isNearest_nearest (num : Nat) (hden : 0 < den) :
    IsNearest (num / den) (nearest num den) := by
  obtain ⟨b, hlow, hhigh, hnearest⟩ := exists_neighbours num hden
  rw [hnearest]
  rcases Nat.lt_or_ge b infinity with hlt | hge
  · rw [Nat.min_eq_left ((nearer_le _ b).trans hlt)]
    constructor
    case le_infinity => exact (nearer_le _ b).trans hlt
    case near => exact fun c _ => abs_sub_value_le_iff.2 (abs_sub_nearer_le hlow hhigh c)
    case even => exact fun c _ hne htie => even_nearer hlow hhigh hne (abs_sub_value_eq_iff.1 htie)
  · rw [Nat.min_eq_right (hge.trans (le_nearer _ b))]
    constructor
    case le_infinity => exact le_rfl
    case near =>
      intro c hc
      have hinfinity := (units_le_units hge).trans hlow
      have hle := units_le_units hc
      rw [abs_sub_value_le_iff, abs_sub_of_le hinfinity, abs_sub_of_le (hle.trans hinfinity)]
      linarith
    case even => exact fun _ _ _ _ => by decide

/-- Greater quotients are rounded to greater magnitudes. -/
theorem nearest_mono (hden : 0 < den) (hden' : 0 < den')
    (h : (num / den : ℚ) ≤ num' / den') : nearest num den ≤ nearest num' den' := by
  obtain ⟨b, hlow, hhigh, hnearest⟩ := exists_neighbours num hden
  obtain ⟨b', hlow', hhigh', hnearest'⟩ := exists_neighbours num' hden'
  have hquotient : quotient num den ≤ quotient num' den' := by
    rw [quotient_eq, quotient_eq]
    exact mul_le_mul_of_nonneg_right h unitsInOne_cast_pos.le
  have hb : b < b' + 1 :=
    units_strictMono.lt_iff_lt.1 (Nat.cast_lt.1 (hlow.trans_lt (hquotient.trans_lt hhigh')))
  rw [hnearest, hnearest']
  refine min_le_min_right infinity ?_
  rcases Nat.lt_or_eq_of_le (Nat.le_of_lt_succ hb) with hlt | rfl
  · exact (nearer_le _ b).trans ((Nat.succ_le_of_lt hlt).trans (le_nearer _ b'))
  · exact nearer_mono hquotient

/-- Below the middle to the next magnitude, a quotient is not rounded above this one. -/
theorem nearest_le (hden : 0 < den) (h : 2 * quotient num den < units b + units (b + 1)) :
    nearest num den ≤ b := by
  obtain ⟨c, hlow, hhigh, hnearest⟩ := exists_neighbours num hden
  rw [hnearest]
  refine (Nat.min_le_left _ _).trans ?_
  rcases Nat.lt_trichotomy c b with hlt | rfl | hgt
  · exact (nearer_le _ c).trans hlt
  · rcases nearer_cases (quotient num den) c with ⟨hc, -⟩ | ⟨-, hmiddle, -⟩
    · exact hc.le
    · exact absurd h (not_lt.2 hmiddle)
  · have hb := units_lt_units (Nat.lt_succ_self b)
    have hc := units_le_units (Nat.succ_le_of_lt hgt)
    linarith

/-- Above the middle to the next magnitude, a quotient is rounded above this one. -/
theorem lt_nearest (hden : 0 < den) (hb : b < infinity)
    (h : units b + units (b + 1) < 2 * quotient num den) : b < nearest num den := by
  obtain ⟨c, hlow, hhigh, hnearest⟩ := exists_neighbours num hden
  rw [hnearest]
  refine lt_min ?_ hb
  rcases Nat.lt_trichotomy c b with hlt | rfl | hgt
  · have hc := units_le_units (Nat.succ_le_of_lt hlt)
    have hb := units_lt_units (Nat.lt_succ_self b)
    linarith
  · rcases nearer_cases (quotient num den) c with ⟨-, hmiddle, -⟩ | ⟨hc, -⟩
    · exact absurd h (not_lt.2 hmiddle)
    · rw [hc]
      exact Nat.lt_succ_self c
  · exact hgt.trans_le (le_nearer _ c)

/-- A quotient that differs from a magnitude behind its last bit only is rounded to it. -/
theorem nearest_eq_of_close (hden : 0 < den) (hb : b < infinity)
    (hclose : 4 * binade * |(num / den : ℚ) - value b| < value b) : nearest num den = b := by
  have h : 4 * binade * |quotient num den - units b| < units b := by
    rwa [abs_sub_value, value, ← mul_div_assoc, div_lt_div_iff_of_pos_right unitsInOne_cast_pos]
      at hclose
  obtain ⟨hbelow, habove⟩ := abs_le.1 (le_refl |quotient num den - units b|)
  have hbinade : (0 : ℚ) ≤ 2 * binade := by positivity
  -- The steps from and to the magnitude are more than twice as long as the difference.
  have hstep (c : Nat) (hc : b ≤ c + 1) :
      2 * |quotient num den - units b| < units (c + 1) - units c := by
    have hgap : (2 * binade * units c + units (c + 1) : ℚ) ≤ 2 * binade * units (c + 1) := by
      exact_mod_cast units_succ_le c
    have hle := units_le_units hc
    refine lt_of_mul_lt_mul_left ?_ hbinade
    linarith
  have hpos : b ≠ 0 := by
    rintro rfl
    have hzero : units 0 = 0 := rfl
    rw [hzero, Nat.cast_zero] at h
    exact absurd h (not_lt.2 (by positivity))
  obtain ⟨c, rfl⟩ := Nat.exists_eq_succ_of_ne_zero hpos
  apply Nat.le_antisymm
  · apply nearest_le hden
    have := hstep (c + 1) (Nat.le_succ _)
    linarith
  · apply lt_nearest hden (Nat.lt_of_succ_lt hb)
    have := hstep c le_rfl
    linarith

end Nearest

end Binary64

/-! ## Decimal numbers -/

namespace Decimal

section Value

variable {d e f : Decimal} {b : Nat}

/-- The number that digits and an exponent stand for. -/
def value (d : Decimal) : ℚ := d.digits * (10 : ℚ) ^ d.exponent

theorem value_eq_div (d : Decimal) : d.value = d.numerator / d.denominator := by
  rw [value, numerator, denominator]
  rcases Int.le_total 0 d.exponent with h | h
  · obtain ⟨n, hn⟩ := Int.eq_ofNat_of_zero_le h
    rw [hn]
    simp
  · obtain ⟨n, hn⟩ := Int.eq_ofNat_of_zero_le (Int.neg_nonneg_of_nonpos h)
    have hexponent : d.exponent = -(n : Int) := by omega
    rw [hexponent]
    simp [div_eq_mul_inv]

/-- **A decimal number is read as the nearest double**, and a tie as the even one. -/
theorem isNearest_value (d : Decimal) : Binary64.IsNearest d.value d.nearest := by
  rw [value_eq_div]
  exact Binary64.isNearest_nearest _ d.denominator_pos

theorem nearest_le_nearest (h : d.value ≤ e.value) : d.nearest ≤ e.nearest := by
  rw [value_eq_div, value_eq_div] at h
  exact Binary64.nearest_mono d.denominator_pos e.denominator_pos h

/-- What stands between two numbers of one double reads as this double. -/
theorem nearest_eq_of_between (hd : d.nearest = b) (hf : f.nearest = b) (hde : d.value ≤ e.value)
    (hef : e.value ≤ f.value) : e.nearest = b :=
  Nat.le_antisymm (hf ▸ nearest_le_nearest hef) (hd ▸ nearest_le_nearest hde)

theorem nearest_eq_of_close (hb : b < Binary64.infinity)
    (h : 4 * Binary64.binade * |d.value - Binary64.value b| < Binary64.value b) :
    d.nearest = b := by
  rw [value_eq_div] at h
  exact Binary64.nearest_eq_of_close d.denominator_pos hb h

end Value

end Decimal

end Bytecode
