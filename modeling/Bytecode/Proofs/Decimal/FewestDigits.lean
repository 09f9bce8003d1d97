import Bytecode.Decimal.Shortest
import Bytecode.Proofs.Binary64.Rounding
import Bytecode.Proofs.Decimal.Positional
import Mathlib.Algebra.Order.GroupWithZero.Basic

/-!
# The fewest digits that read back

A decimal number is read as the nearest double.  So all numbers between two that read
as the same double do so, too, and the numbers of few digits stand on a grid: if one
of them reads as a double, a neighbour of the double on the grid does.  The shortest
digits are those of the coarsest grid for which this happens.

* `Decimal.digitCount_le_iff` — how many digits a number has.
* `Decimal.exists_shortest_eq` — seventeen digits are enough.
* `Decimal.IsShortest` — no number of fewer digits reads back, and none of as many is
  nearer.
* `Decimal.isShortest_shortest` — the shortest digits are shortest.
-/

namespace Bytecode.Decimal

/-! ## Zeros at the end -/

theorem value_strip (d : Decimal) : d.strip.value = d.value := by
  fun_induction strip d with
  | case1 d h ih =>
    have hdigits : d.digits = 10 * (d.digits / 10) :=
      (Nat.mul_div_cancel' (Nat.dvd_of_mod_eq_zero h.2)).symm
    rw [ih, value, value, zpow_add_one₀ (by norm_num)]
    conv_rhs => rw [hdigits, Nat.cast_mul]
    push_cast
    ring
  | case2 => rfl

theorem digits_strip_le (d : Decimal) : d.strip.digits ≤ d.digits := by
  fun_induction strip d with
  | case1 d h ih => exact ih.trans (Nat.div_le_self _ _)
  | case2 => exact le_rfl

/-! ## The number of digits -/

section Count

variable {n k : Nat}

theorem digitCount_pos (n : Nat) : 0 < digitCount n := by
  rw [digitCount]
  split
  · exact Nat.length_toDigits_pos
  · exact Nat.succ_pos _

/-- A numeral has at most `k` digits iff its number is below the power of ten. -/
theorem digitCount_le_iff (hk : 0 < k) : digitCount n ≤ k ↔ n < 10 ^ k := by
  induction n using digitCount.induct generalizing k with
  | case1 n h =>
    rw [digitCount, if_pos h]
    exact Nat.length_toDigits_le_iff (by decide) hk
  | case2 n h ih =>
    rw [digitCount, if_neg h]
    rcases Nat.lt_or_ge 16 k with hlt | hge
    · obtain ⟨j, rfl⟩ := Nat.exists_eq_add_of_lt hlt
      rw [show 16 + j + 1 = j + 1 + 16 by omega, Nat.add_le_add_iff_right, ih (Nat.succ_pos j),
        Nat.div_lt_iff_lt_mul (by decide), Nat.pow_add]
    · have hpos := digitCount_pos (n / 10000000000000000)
      have hpow : 10 ^ k ≤ 10 ^ 16 := Nat.pow_le_pow_right (by decide) hge
      refine iff_of_false (by omega) (not_lt.2 (hpow.trans ?_))
      exact Nat.not_lt.1 h

theorem lt_pow_digitCount (n : Nat) : n < 10 ^ digitCount n :=
  (digitCount_le_iff (digitCount_pos n)).1 le_rfl

theorem pow_digitCount_le (hn : n ≠ 0) : 10 ^ (digitCount n - 1) ≤ n := by
  rcases Nat.eq_zero_or_pos (digitCount n - 1) with hone | hmore
  · rw [hone]
    exact Nat.pos_of_ne_zero hn
  · refine Nat.not_lt.1 fun hlt => ?_
    have hle := (digitCount_le_iff hmore).2 hlt
    omega

end Count

/-! ## The grids -/

/-- The number on a grid: its last digit stands `place` places before the last one of the exact
digits. -/
def grid (place k : Nat) : Decimal := ⟨k, (place : Int) - Binary64.unitPlace⟩

/-- What the last place of the exact digits is worth. -/
def lastPlace : ℚ := (10 : ℚ) ^ (-(Binary64.unitPlace : Int))

theorem lastPlace_pos : 0 < lastPlace := zpow_pos (by norm_num) _

theorem value_grid (place k : Nat) : (grid place k).value = (k * 10 ^ place : Nat) * lastPlace := by
  rw [value, grid, lastPlace, sub_eq_add_neg, zpow_add₀ (by norm_num), zpow_natCast]
  push_cast
  ring

theorem value_grid_eq_zpow (place k : Nat) :
    (grid place k).value = k * (10 : ℚ) ^ ((place : Int) - Binary64.unitPlace) := rfl

/-- A number of few digits that is not too small stands on the grid. -/
theorem exists_value_eq {d : Decimal} {place len : Nat} (hlen : d.digits < 10 ^ (len + 1))
    (hlarge : (grid place (10 ^ len)).value < d.value) : ∃ k, d.value = (grid place k).value := by
  have hexponent : (place : Int) - Binary64.unitPlace ≤ d.exponent := by
    have hvalue : d.value < (10 : ℚ) ^ ((len : Int) + 1 + d.exponent) := by
      rw [value, zpow_add₀ (by norm_num)]
      refine mul_lt_mul_of_pos_right ?_ (zpow_pos (by norm_num) _)
      exact_mod_cast hlen
    have hgrid : (grid place (10 ^ len)).value =
        (10 : ℚ) ^ ((len : Int) + ((place : Int) - Binary64.unitPlace)) := by
      rw [value_grid_eq_zpow, zpow_add₀ (by norm_num), zpow_natCast]
      push_cast
      rfl
    have hlt := (zpow_lt_zpow_iff_right₀ (by norm_num)).1 (hgrid ▸ hlarge.trans hvalue)
    omega
  obtain ⟨j, hj⟩ := Int.exists_add_of_le hexponent
  refine ⟨d.digits * 10 ^ j, ?_⟩
  rw [value, hj, value_grid_eq_zpow, zpow_add₀ (by norm_num), zpow_natCast]
  push_cast
  ring

theorem value_grid_lt_iff {place j k : Nat} :
    (grid place j).value < (grid place k).value ↔ j < k := by
  rw [value_grid_eq_zpow, value_grid_eq_zpow,
    mul_lt_mul_iff_of_pos_right (zpow_pos (by norm_num) _), Nat.cast_lt]

theorem value_grid_le_iff {place j k : Nat} :
    (grid place j).value ≤ (grid place k).value ↔ j ≤ k := by
  rw [← not_lt, value_grid_lt_iff, not_lt]

/-! ## The neighbours of a double on a grid -/

section Neighbours

variable {b : Nat}

/-- The exact digits of a double, as a number. -/
def exact (b : Nat) : Decimal := ⟨exactDigits b, -(Binary64.unitPlace : Int)⟩

/-- The neighbours of a double on a grid. -/
def below (b place : Nat) : Decimal := grid place (exactDigits b / 10 ^ place)

def above (b place : Nat) : Decimal := grid place (exactDigits b / 10 ^ place + 1)

theorem value_exact (b : Nat) : (exact b).value = Binary64.value b := by
  have hfive : (5 : ℚ) ^ Binary64.unitPlace ≠ 0 := pow_ne_zero _ (by norm_num)
  have hten : (10 : ℚ) ^ Binary64.unitPlace = 2 ^ Binary64.unitPlace * 5 ^ Binary64.unitPlace := by
    rw [← mul_pow]
    norm_num
  have hone : (Binary64.unitsInOne : ℚ) = 2 ^ Binary64.unitPlace := by
    rw [Binary64.unitsInOne, Nat.shiftLeft_eq, Nat.one_mul, Nat.cast_pow, Nat.cast_ofNat]
  calc (exact b).value
      = Binary64.units b * 5 ^ Binary64.unitPlace / 10 ^ Binary64.unitPlace := by
        rw [value, exact, exactDigits, Nat.pow_eq, Nat.cast_mul, Nat.cast_pow, Nat.cast_ofNat,
          zpow_neg, zpow_natCast, div_eq_mul_inv]
    _ = Binary64.units b / 2 ^ Binary64.unitPlace := by rw [hten, mul_div_mul_right _ _ hfive]
    _ = Binary64.value b := by rw [Binary64.value, hone]

theorem value_exact_eq (b : Nat) : (exact b).value = exactDigits b * lastPlace := rfl

theorem value_below_le (b place : Nat) : (below b place).value ≤ (exact b).value := by
  rw [below, value_grid, value_exact_eq]
  refine mul_le_mul_of_nonneg_right ?_ lastPlace_pos.le
  exact_mod_cast Nat.div_mul_le_self _ _

theorem value_lt_above (b place : Nat) : (exact b).value < (above b place).value := by
  rw [above, value_grid, value_exact_eq]
  refine mul_lt_mul_of_pos_right ?_ lastPlace_pos
  exact_mod_cast Nat.lt_mul_of_div_lt (Nat.lt_succ_self _) (Nat.pow_pos (by decide))

end Neighbours

section Search

variable {b place len : Nat} {d e : Decimal}

/-- A number of few digits does not stand between the two neighbours. -/
theorem not_between (hdigits : e.digits < 10 ^ (len + 1))
    (hplace : 10 ^ (len + place) ≤ exactDigits b) (hbelow : (below b place).value < e.value)
    (habove : e.value < (above b place).value) : False := by
  have hlarge : (grid place (10 ^ len)).value < e.value := by
    refine lt_of_le_of_lt (value_grid_le_iff.2 ?_) hbelow
    rwa [Nat.le_div_iff_mul_le (Nat.pow_pos (by decide)), ← Nat.pow_add]
  obtain ⟨k, hk⟩ := exists_value_eq hdigits hlarge
  rw [hk, below, value_grid_lt_iff] at hbelow
  rw [hk, above, value_grid_lt_iff] at habove
  omega

section Finite

variable (hb : b < Binary64.infinity) (hdigits : e.digits < 10 ^ (len + 1))
  (hplace : 10 ^ (len + place) ≤ exactDigits b) (he : e.nearest = b)
include hb hdigits hplace he

/-- A number of few digits that reads as a double and is not above it is not above the neighbour
below, which reads as the double then. -/
theorem below_of_le (hle : e.value ≤ (exact b).value) :
    e.value ≤ (below b place).value ∧ (below b place).nearest = b := by
  have hbelow : e.value ≤ (below b place).value := not_lt.1 fun hlt =>
    not_between hdigits hplace hlt (hle.trans_lt (value_lt_above b place))
  exact ⟨hbelow, nearest_eq_of_between he (nearest_exact hb) hbelow (value_below_le b place)⟩

/-- One that is above the double is not below the neighbour above. -/
theorem above_of_lt (hlt : (exact b).value < e.value) :
    (above b place).value ≤ e.value ∧ (above b place).nearest = b := by
  have habove : (above b place).value ≤ e.value := not_lt.1 fun hlt' =>
    not_between hdigits hplace ((value_below_le b place).trans_lt hlt) hlt'
  exact ⟨habove, nearest_eq_of_between (nearest_exact hb) he (value_lt_above b place).le habove⟩

theorem neighbour_of_nearest : (below b place).nearest = b ∨ (above b place).nearest = b := by
  rcases le_or_gt e.value (exact b).value with hle | hlt
  · exact .inl (below_of_le hb hdigits hplace he hle).2
  · exact .inr (above_of_lt hb hdigits hplace he hlt).2

end Finite

/-- Twice the double, compared with the sum of its neighbours: which one is nearer. -/
theorem sum_le_iff : ((below b place).digits + (above b place).digits) * 10 ^ place ≤
    2 * exactDigits b ↔ (below b place).value + (above b place).value ≤ 2 * (exact b).value := by
  have hsum : (below b place).value + (above b place).value =
      (((below b place).digits + (above b place).digits) * 10 ^ place : Nat) * lastPlace := by
    rw [below, above, value_grid, value_grid, grid, grid]
    push_cast
    ring
  have htwice : 2 * (exact b).value = (2 * exactDigits b : Nat) * lastPlace := by
    rw [value_exact_eq]
    push_cast
    ring
  rw [hsum, htwice, mul_le_mul_iff_of_pos_right lastPlace_pos, Nat.cast_le]

theorem onGrid_eq : onGrid b (exactDigits b) place =
    if (below b place).nearest = b then
      if (above b place).nearest = b ∧
          (below b place).value + (above b place).value ≤ 2 * (exact b).value then
        some (above b place)
      else some (below b place)
    else if (above b place).nearest = b then some (above b place)
    else none := by
  simp only [← sum_le_iff]
  rfl

theorem isSome_onGrid_iff : (onGrid b (exactDigits b) place).isSome ↔
    (below b place).nearest = b ∨ (above b place).nearest = b := by
  rw [onGrid_eq]
  split
  · split <;> simp [*]
  · split <;> simp [*]

/-- The number that is taken of a grid, and what it is nearer than. -/
theorem onGrid_cases (h : onGrid b (exactDigits b) place = some d) :
    (d = below b place ∧ ((above b place).nearest = b →
        2 * (exact b).value < (below b place).value + (above b place).value)) ∨
      d = above b place ∧ ((below b place).nearest = b →
        (below b place).value + (above b place).value ≤ 2 * (exact b).value) := by
  rw [onGrid_eq] at h
  split at h
  · split at h
    · rename_i hboth
      exact .inr ⟨(Option.some.inj h).symm, fun _ => hboth.2⟩
    · rename_i hnot
      exact .inl ⟨(Option.some.inj h).symm, fun habove => not_le.1 fun hle => hnot ⟨habove, hle⟩⟩
  · rename_i hbelow
    split at h
    · exact .inr ⟨(Option.some.inj h).symm, fun hbelow' => absurd hbelow' hbelow⟩
    · contradiction

/-- What is taken of a grid is at least as near as any number of few digits that reads back, and not
the smaller one of two that are equally near. -/
theorem onGrid_closest (h : onGrid b (exactDigits b) place = some d) (hb : b < Binary64.infinity)
    (hdigits : e.digits < 10 ^ (len + 1)) (hplace : 10 ^ (len + place) ≤ exactDigits b)
    (he : e.nearest = b) :
    |(exact b).value - d.value| ≤ |(exact b).value - e.value| ∧
      (|(exact b).value - e.value| = |(exact b).value - d.value| → e.value ≤ d.value) := by
  have hlow := value_below_le b place
  have hhigh := value_lt_above b place
  rcases le_or_gt e.value (exact b).value with hle | hlt
  · obtain ⟨hvalue, hbelow⟩ := below_of_le hb hdigits hplace he hle
    rw [abs_of_nonneg (sub_nonneg.2 hle)]
    rcases onGrid_cases h with ⟨rfl, -⟩ | ⟨rfl, hsum⟩
    · rw [abs_of_nonneg (sub_nonneg.2 hlow)]
      exact ⟨by linarith, fun _ => hvalue⟩
    · have := hsum hbelow
      rw [abs_of_neg (sub_neg.2 hhigh)]
      exact ⟨by linarith, fun _ => hle.trans hhigh.le⟩
  · obtain ⟨hvalue, habove⟩ := above_of_lt hb hdigits hplace he hlt
    rw [abs_of_neg (sub_neg.2 hlt)]
    rcases onGrid_cases h with ⟨rfl, hsum⟩ | ⟨rfl, -⟩
    · have := hsum habove
      rw [abs_of_nonneg (sub_nonneg.2 hlow)]
      exact ⟨by linarith, fun htie => by linarith⟩
    · rw [abs_of_neg (sub_neg.2 hhigh)]
      exact ⟨by linarith, fun htie => by linarith⟩

/-- Seventeen digits are enough: one of the neighbours differs behind the last bit only. -/
theorem neighbour_of_seventeen (hb : b < Binary64.infinity)
    (hplace : 10 ^ (16 + place) ≤ exactDigits b) :
    (below b place).nearest = b ∨ (above b place).nearest = b := by
  have hlow := value_below_le b place
  have hhigh := value_lt_above b place
  have hstep : (above b place).value - (below b place).value = (10 ^ place : Nat) * lastPlace := by
    rw [above, below, value_grid, value_grid]
    push_cast
    ring
  have hlarge : 10 ^ 16 * ((10 ^ place : Nat) * lastPlace) ≤ (exact b).value := by
    rw [value_exact_eq, ← mul_assoc]
    refine mul_le_mul_of_nonneg_right ?_ lastPlace_pos.le
    rw [pow_add] at hplace
    exact_mod_cast hplace
  have hpos : 0 < (10 ^ place : Nat) * lastPlace :=
    mul_pos (Nat.cast_pos.2 (Nat.pow_pos (by decide))) lastPlace_pos
  have hbinade : (Binary64.binade : ℚ) = 2 ^ 52 := by
    rw [Binary64.binade]
    norm_num
  have hclose {d : Decimal}
      (hd : 2 * |d.value - (exact b).value| ≤ (10 ^ place : Nat) * lastPlace) : d.nearest = b := by
    refine nearest_eq_of_close hb ?_
    rw [← value_exact, hbinade]
    linarith
  rcases le_total (2 * (exact b).value) ((below b place).value + (above b place).value) with h | h
  · refine .inl (hclose ?_)
    rw [abs_sub_comm, abs_of_nonneg (sub_nonneg.2 hlow)]
    linarith
  · refine .inr (hclose ?_)
    rw [abs_of_pos (sub_pos.2 hhigh)]
    linarith

end Search

/-! ## The first grid -/

/-- Of the numbers below `n`, the first one with an answer is found. -/
theorem exists_of_findSome?_range {α : Type} {f : Nat → Option α} {n : Nat} {a : α}
    (h : (List.range n).findSome? f = some a) :
    ∃ k < n, f k = some a ∧ ∀ j < k, f j = none := by
  obtain ⟨before, k, after, hsplit, hk, hbefore⟩ := List.findSome?_eq_some_iff.1 h
  rw [List.range_eq_range', List.range'_eq_append_iff] at hsplit
  obtain ⟨i, hi, rfl, hrest⟩ := hsplit
  obtain ⟨hik, hpos, -⟩ := List.range'_eq_cons_iff.1 hrest.symm
  have hindex : k = i := by omega
  refine ⟨k, by omega, hk, fun j hj => hbefore j ?_⟩
  rw [List.mem_range'_1]
  omega

section Shortest

variable {b : Nat}

theorem units_ne_zero (hzero : b ≠ 0) : Binary64.units b ≠ 0 := fun h =>
  hzero (Binary64.units_strictMono.injective h)

theorem pow_unitPlace_le (hzero : b ≠ 0) : 5 ^ Binary64.unitPlace ≤ exactDigits b := by
  have hunits := Nat.pos_of_ne_zero (units_ne_zero hzero)
  rw [exactDigits, Nat.pow_eq]
  generalize Binary64.unitPlace = n
  exact Nat.le_mul_of_pos_left _ hunits

/-- The exact digits are many more than seventeen. -/
theorem maxDigits_lt_digitCount (hzero : b ≠ 0) : maxDigits < digitCount (exactDigits b) := by
  have hlarge : 10 ^ 17 ≤ exactDigits b :=
    calc 10 ^ 17 ≤ 5 ^ 25 := by decide
      _ ≤ 5 ^ Binary64.unitPlace := Nat.pow_le_pow_right (by decide) (by decide)
      _ ≤ exactDigits b := pow_unitPlace_le hzero
  refine Nat.not_le.1 fun hle => ?_
  exact absurd ((digitCount_le_iff (by decide)).1 hle) (Nat.not_lt.2 hlarge)

/-- The grid on which numbers have `len + 1` digits. -/
theorem pow_le_exactDigits {len : Nat} (hzero : b ≠ 0) (hlen : len < digitCount (exactDigits b)) :
    10 ^ (len + (digitCount (exactDigits b) - 1 - len)) ≤ exactDigits b := by
  rw [show len + (digitCount (exactDigits b) - 1 - len) = digitCount (exactDigits b) - 1 by omega]
  exact pow_digitCount_le ((Nat.pow_pos (by decide)).trans_le (pow_unitPlace_le hzero)).ne'

end Shortest

section Shortest

variable {b : Nat}

/-- What is found on the first grid that has a number to offer, and on none before it. -/
theorem exists_shortest_eq (hb : b < Binary64.infinity) (hzero : b ≠ 0) :
    ∃ len < maxDigits, ∃ d, shortest b = d.strip ∧
      onGrid b (exactDigits b) (digitCount (exactDigits b) - 1 - len) = some d ∧
      ∀ j < len, onGrid b (exactDigits b) (digitCount (exactDigits b) - 1 - j) = none := by
  have hcount : 16 < digitCount (exactDigits b) :=
    (show 16 < maxDigits by decide).trans (maxDigits_lt_digitCount hzero)
  have hfound : ((List.range maxDigits).findSome? fun n =>
      onGrid b (exactDigits b) (digitCount (exactDigits b) - 1 - n)).isSome := by
    refine List.findSome?_isSome_iff.2 ⟨16, by decide, isSome_onGrid_iff.2 ?_⟩
    exact neighbour_of_seventeen hb (pow_le_exactDigits hzero hcount)
  obtain ⟨d, hd⟩ := Option.isSome_iff_exists.1 hfound
  obtain ⟨len, hlen, honGrid, hnone⟩ := exists_of_findSome?_range hd
  refine ⟨len, hlen, d, ?_, honGrid, hnone⟩
  rw [shortest, if_neg hzero]
  dsimp only
  rw [hd, Option.getD_some]

/-- The power of ten that a neighbour can be loses its zeros. -/
theorem digitCount_strip_le {d : Decimal} {len : Nat} (h : d.digits ≤ 10 ^ (len + 1)) :
    digitCount d.strip.digits ≤ len + 1 := by
  rw [digitCount_le_iff (Nat.succ_pos len)]
  rcases Nat.lt_or_eq_of_le h with hlt | heq
  · exact (digits_strip_le d).trans_lt hlt
  · have htenfold : d.digits = 10 ^ len * 10 := by rw [heq, pow_succ]
    have hpos : 0 < 10 ^ len := Nat.pow_pos (by decide)
    have hzeros : d.digits ≠ 0 ∧ d.digits % 10 = 0 := by omega
    rw [strip, if_pos hzeros]
    refine (digits_strip_le _).trans_lt ?_
    show d.digits / 10 < 10 ^ (len + 1)
    rw [pow_succ]
    omega

/-- Neighbours on a grid have no more digits than the grid. -/
theorem digits_onGrid_le {d : Decimal} {len : Nat} (hlen : len < digitCount (exactDigits b))
    (h : onGrid b (exactDigits b) (digitCount (exactDigits b) - 1 - len) = some d) :
    d.digits ≤ 10 ^ (len + 1) := by
  have hlt : exactDigits b / 10 ^ (digitCount (exactDigits b) - 1 - len) < 10 ^ (len + 1) := by
    rw [Nat.div_lt_iff_lt_mul (Nat.pow_pos (by decide)), ← Nat.pow_add,
      show len + 1 + (digitCount (exactDigits b) - 1 - len) = digitCount (exactDigits b) by omega]
    exact lt_pow_digitCount _
  rcases onGrid_cases h with ⟨rfl, -⟩ | ⟨rfl, -⟩
  · exact hlt.le
  · exact hlt

end Shortest

/-! ## The shortest digits -/

/-- No decimal number of fewer digits reads as a double, and of those with as many digits none is
nearer to it; of two that are equally near, it is the larger one. -/
structure IsShortest (b : Nat) (d : Decimal) : Prop where
  reads : d.nearest = b
  fewest : ∀ e : Decimal, e.nearest = b → digitCount d.digits ≤ digitCount e.digits
  closest : ∀ e : Decimal, e.nearest = b → digitCount e.digits = digitCount d.digits →
    |Binary64.value b - d.value| ≤ |Binary64.value b - e.value|
  larger : ∀ e : Decimal, e.nearest = b → digitCount e.digits = digitCount d.digits →
    |Binary64.value b - e.value| = |Binary64.value b - d.value| → e.value ≤ d.value

theorem isShortest_zero : IsShortest 0 ⟨0, 0⟩ := by
  have hvalue : Binary64.value 0 - value ⟨0, 0⟩ = 0 := by
    simp [Binary64.value, value, show Binary64.units 0 = 0 from rfl]
  have hzero : value ⟨0, 0⟩ = 0 := by simp [value]
  constructor
  case reads => exact nearest_zero 0
  case fewest => exact fun e _ => (digitCount_le_iff (digitCount_pos _)).2 (Nat.pow_pos (by decide))
  case closest =>
    intro e _ _
    rw [hvalue, abs_zero]
    exact abs_nonneg _
  case larger =>
    intro e _ _ htie
    rw [hvalue, abs_zero, abs_eq_zero, sub_eq_zero] at htie
    rw [← htie, ← sub_eq_zero.1 hvalue]

/-- **The shortest digits are shortest.**  They read back, no fewer would do, and no other ones of
the same number are nearer. -/
theorem isShortest_shortest {b : Nat} (hb : b < Binary64.infinity) : IsShortest b (shortest b) := by
  by_cases hzero : b = 0
  · rw [hzero, shortest_zero]
    exact isShortest_zero
  · obtain ⟨len, hlen, d, hshortest, honGrid, hnone⟩ := exists_shortest_eq hb hzero
    have hcount := hlen.trans (maxDigits_lt_digitCount hzero)
    have hmost : digitCount d.strip.digits ≤ len + 1 :=
      digitCount_strip_le (digits_onGrid_le hcount honGrid)
    -- A number of fewer digits would have been found on a coarser grid.
    have hleast (e : Decimal) (he : e.nearest = b) : len < digitCount e.digits := by
      refine Nat.not_le.1 fun hle => ?_
      obtain ⟨j, hj⟩ := Nat.exists_eq_add_one_of_ne_zero (digitCount_pos e.digits).ne'
      have hdigits : e.digits < 10 ^ (j + 1) := hj ▸ lt_pow_digitCount e.digits
      have hplace : 10 ^ (j + (digitCount (exactDigits b) - 1 - j)) ≤ exactDigits b :=
        pow_le_exactDigits hzero (by omega)
      have hsome := isSome_onGrid_iff.2 (neighbour_of_nearest hb hdigits hplace he)
      rw [hnone j (by omega)] at hsome
      exact Bool.false_ne_true hsome
    have hclosest (e : Decimal) (he : e.nearest = b)
        (hsame : digitCount e.digits = digitCount d.strip.digits) :=
      onGrid_closest honGrid hb ((digitCount_le_iff (Nat.succ_pos len)).1 (hsame ▸ hmost))
        (pow_le_exactDigits hzero hcount) he
    rw [hshortest]
    constructor
    case reads => rw [nearest_strip, nearest_onGrid honGrid]
    case fewest => exact fun e he => hmost.trans (hleast e he)
    case closest =>
      intro e he hsame
      rw [value_strip, ← value_exact]
      exact (hclosest e he hsame).1
    case larger =>
      intro e he hsame
      rw [value_strip, ← value_exact]
      exact (hclosest e he hsame).2

/-- Seventeen digits are enough. -/
theorem digitCount_shortest_le {b : Nat} (hb : b < Binary64.infinity) :
    digitCount (shortest b).digits ≤ maxDigits := by
  by_cases hzero : b = 0
  · rw [hzero, shortest_zero]
    exact (digitCount_le_iff (by decide)).2 (Nat.pow_pos (by decide))
  · obtain ⟨len, hlen, d, hshortest, honGrid, -⟩ := exists_shortest_eq hb hzero
    have hcount := hlen.trans (maxDigits_lt_digitCount hzero)
    rw [hshortest]
    exact (digitCount_strip_le (digits_onGrid_le hcount honGrid)).trans hlen

end Bytecode.Decimal
