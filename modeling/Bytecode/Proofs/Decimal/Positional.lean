import Bytecode.Decimal.Notation
import Bytecode.Decimal.Shortest
import Bytecode.Proofs.Text.Characters
import Mathlib.Data.List.Basic

/-!
# Positional numbers, read back

A decimal number that is written positionally is read back as a number of the same
value.  Where the zeros at its end have been moved into the exponent, the part behind
the point does not end in a zero, so that nothing is written in vain.

* `Decimal.exists_isFraction` — where the digits of a number stand around the point.
* `Decimal.IsPositional` — digits, and maybe a point and more digits, the last of
  which is not zero.
* `Decimal.exists_read?_positional` — what is written positionally is read back.
* `Decimal.isPositional_positional` — it has that form, if the last digit of the
  number counts.
* `Decimal.lastDigit_shortest` — as it does in the shortest digits of a double.
-/

namespace Bytecode

open Text (decimal)

namespace Decimal

/-! ## Runs of digits -/

section Runs

variable {digits rest whole fraction : Text}

theorem takeDigits_append (hdigits : ∀ c ∈ digits, c.isDigit = true)
    (hrest : ∀ c ∈ rest.head?, c.isDigit = false) :
    takeDigits (digits ++ rest) = (digits, rest) := by
  rw [takeDigits, Text.takeWhile_run hdigits hrest, Text.dropWhile_run hdigits hrest]

theorem takeDigits_eq_self (hdigits : ∀ c ∈ digits, c.isDigit = true) :
    takeDigits digits = (digits, []) := by
  have h : takeDigits (digits ++ []) = (digits, []) := takeDigits_append hdigits (by simp)
  rwa [List.append_nil] at h

theorem read?_whole (hne : digits ≠ []) (hdigits : ∀ c ∈ digits, c.isDigit = true) :
    read? digits = some ⟨Nat.ofDigitChars 10 digits 0, 0⟩ := by
  simp [read?, takeDigits_eq_self hdigits, hne, readExponent]

theorem read?_fraction (hne : whole ≠ []) (hwhole : ∀ c ∈ whole, c.isDigit = true)
    (hfraction : ∀ c ∈ fraction, c.isDigit = true) :
    read? (whole ++ '.' :: fraction) =
      some ⟨Nat.ofDigitChars 10 (whole ++ fraction) 0, -(fraction.length : Int)⟩ := by
  have hpoint : ∀ c ∈ ('.' :: fraction).head?, c.isDigit = false := by
    simp only [List.head?_cons, Option.mem_some_iff, forall_eq']
    decide
  simp [read?, takeDigits_append hwhole hpoint, takeDigits_eq_self hfraction, hne, readExponent]

end Runs

/-! ## The digits of a number -/

section Positional

variable {d : Decimal}

/-- A number without a negative exponent is written as a whole number. -/
theorem positional_of_nonneg (h : 0 ≤ d.exponent) :
    d.positional false = decimal d.digits ++ List.replicate d.exponent.toNat '0' := by
  rw [positional, if_pos h]
  exact List.append_nil _

/-- Where a number has more digits than places behind the point, the point stands among them. -/
theorem positional_of_lt (h : d.exponent < 0)
    (hplaces : (-d.exponent).toNat < (decimal d.digits).length) :
    d.positional false =
      (decimal d.digits).take ((decimal d.digits).length - (-d.exponent).toNat) ++
        '.' :: (decimal d.digits).drop ((decimal d.digits).length - (-d.exponent).toNat) := by
  rw [positional, if_neg (Int.not_le.2 h)]
  exact if_pos hplaces

/-- Otherwise all digits stand behind the point, and behind the zeros that are missing. -/
theorem positional_of_le (h : d.exponent < 0)
    (hplaces : (decimal d.digits).length ≤ (-d.exponent).toNat) :
    d.positional false = ['0'] ++ '.' ::
      (List.replicate ((-d.exponent).toNat - (decimal d.digits).length) '0' ++
        decimal d.digits) := by
  rw [positional, if_neg (Int.not_le.2 h)]
  exact if_neg (Nat.not_lt.2 hplaces)

theorem isDigit_of_mem_zeros {n : Nat} {c : Char} (h : c ∈ List.replicate n '0') :
    c.isDigit = true := by
  rw [List.eq_of_mem_replicate h]
  decide

/-- What is written of a number with a negative exponent: the digits of the number stand around the
point, maybe behind zeros, and as many of them behind the point as the exponent says. -/
structure IsFraction (d : Decimal) (whole fraction : Text) : Prop where
  whole_ne_nil : whole ≠ []
  isDigit_whole : ∀ c ∈ whole, c.isDigit = true
  isDigit_fraction : ∀ c ∈ fraction, c.isDigit = true
  value : Nat.ofDigitChars 10 (whole ++ fraction) 0 = d.digits
  places : (fraction.length : Int) = -d.exponent
  last : fraction.getLast? = (decimal d.digits).getLast?

theorem exists_isFraction (h : d.exponent < 0) :
    ∃ whole fraction, IsFraction d whole fraction ∧
      d.positional false = whole ++ '.' :: fraction := by
  have hdigits : ∀ c ∈ decimal d.digits, c.isDigit = true := fun c hc =>
    Text.isDigit_of_mem_decimal hc
  rcases Nat.lt_or_ge (-d.exponent).toNat (decimal d.digits).length with hlt | hle
  · refine ⟨_, _, ?_, positional_of_lt h hlt⟩
    constructor
    case whole_ne_nil =>
      rw [Ne, List.take_eq_nil_iff]
      rintro (hzero | hnil)
      · omega
      · exact Text.decimal_ne_nil _ hnil
    case isDigit_whole => exact fun c hc => hdigits c (List.mem_of_mem_take hc)
    case isDigit_fraction => exact fun c hc => hdigits c (List.mem_of_mem_drop hc)
    case value => rw [List.take_append_drop, Text.ofDigitChars_decimal]
    case places =>
      rw [List.length_drop]
      omega
    case last => rw [List.getLast?_drop, if_neg (by omega)]
  · have hzeros (n : Nat) : Nat.ofDigitChars 10 (List.replicate n '0') 0 = 0 := by
      rw [Nat.ofDigitChars_replicate_zero, Nat.mul_zero]
    refine ⟨_, _, ?_, positional_of_le h hle⟩
    constructor
    case whole_ne_nil => simp
    case isDigit_whole => simp
    case isDigit_fraction =>
      intro c hc
      exact (List.mem_append.1 hc).elim isDigit_of_mem_zeros (hdigits c)
    case value =>
      rw [Nat.ofDigitChars_append, Nat.ofDigitChars_append,
        show Nat.ofDigitChars 10 ['0'] 0 = 0 from rfl, hzeros, Text.ofDigitChars_decimal]
    case places =>
      rw [List.length_append, List.length_replicate]
      omega
    case last => exact List.getLast?_append_of_ne_nil _ (Text.decimal_ne_nil _)

theorem isDigit_of_mem_whole {n : Nat} {c : Char}
    (h : c ∈ decimal d.digits ++ List.replicate n '0') : c.isDigit = true :=
  (List.mem_append.1 h).elim Text.isDigit_of_mem_decimal isDigit_of_mem_zeros

/-- The zeros behind a whole number can be written out. -/
theorem nearest_whole (h : 0 ≤ d.exponent) :
    nearest ⟨Nat.pow 10 d.exponent.toNat * d.digits, 0⟩ = d.nearest := by
  apply nearest_eq_of_value
  have hplaces : (-d.exponent).toNat = 0 := by omega
  have hnone : (-(0 : Int)).toNat = 0 := rfl
  simp only [numerator, denominator, hplaces, hnone, Int.toNat_zero, show Nat.pow 10 0 = 1 from rfl,
    Nat.mul_one]
  exact Nat.mul_comm _ _

/-- What is written positionally is read back as a number of the same value. -/
theorem exists_read?_positional (d : Decimal) :
    ∃ e, read? (d.positional false) = some e ∧ e.nearest = d.nearest := by
  rcases Int.lt_or_le d.exponent 0 with hneg | hnonneg
  · obtain ⟨whole, fraction, h, hpositional⟩ := exists_isFraction hneg
    refine ⟨d, ?_, rfl⟩
    rw [hpositional, read?_fraction h.whole_ne_nil h.isDigit_whole h.isDigit_fraction, h.value,
      h.places, Int.neg_neg]
  · refine ⟨⟨Nat.ofDigitChars 10 (d.positional false) 0, 0⟩, ?_, ?_⟩
    · rw [positional_of_nonneg hnonneg]
      exact read?_whole (by simp [Text.decimal_ne_nil]) fun c hc => isDigit_of_mem_whole hc
    · rw [positional_of_nonneg hnonneg, Nat.ofDigitChars_append, Text.ofDigitChars_decimal,
        Nat.ofDigitChars_replicate_zero]
      exact nearest_whole hnonneg

end Positional

/-! ## The last digit -/

/-- Digits, and maybe a point and more digits, the last of which is not zero. -/
inductive IsPositional : Text → Prop
  | whole {digits : Text} (hne : digits ≠ []) (hdigits : ∀ c ∈ digits, c.isDigit = true) :
    IsPositional digits
  | fraction {whole fraction : Text} (hne : whole ≠ []) (hwhole : ∀ c ∈ whole, c.isDigit = true)
    (hne' : fraction ≠ []) (hfraction : ∀ c ∈ fraction, c.isDigit = true)
    (hlast : fraction.getLast? ≠ some '0') : IsPositional (whole ++ '.' :: fraction)

/-- A numeral ends in a zero only if ten divides the number. -/
theorem getLast?_decimal_ne {n : Nat} (h : n % 10 ≠ 0) : (decimal n).getLast? ≠ some '0' := by
  have hlast : (decimal n).getLast? = some (n % 10).digitChar := by
    rw [decimal, Nat.toDigits_eq_if (by decide)]
    split
    · rename_i hlt
      rw [Nat.mod_eq_of_lt hlt]
      rfl
    · exact List.getLast?_concat
  have hchar : ∀ k < 10, k ≠ 0 → k.digitChar ≠ '0' := by decide
  rw [hlast]
  exact fun hzero => hchar _ (Nat.mod_lt _ (by decide)) h (Option.some.inj hzero)

/-- Where the last digit behind the point counts, the number is written without a zero at its
end. -/
theorem isPositional_positional {d : Decimal} (h : d.exponent < 0 → d.digits % 10 ≠ 0) :
    IsPositional (d.positional false) := by
  rcases Int.lt_or_le d.exponent 0 with hneg | hnonneg
  · obtain ⟨whole, fraction, hfraction, hpositional⟩ := exists_isFraction hneg
    have hne : fraction ≠ [] := by
      rintro rfl
      have hplaces := hfraction.places
      simp only [List.length_nil] at hplaces
      omega
    rw [hpositional]
    refine .fraction hfraction.whole_ne_nil hfraction.isDigit_whole hne
      hfraction.isDigit_fraction ?_
    rw [hfraction.last]
    exact getLast?_decimal_ne (h hneg)
  · rw [positional_of_nonneg hnonneg]
    exact .whole (by simp [Text.decimal_ne_nil]) fun c hc => isDigit_of_mem_whole hc

theorem digits_strip (d : Decimal) : d.strip.digits = 0 ∨ d.strip.digits % 10 ≠ 0 := by
  fun_induction strip d with
  | case1 d h ih => exact ih
  | case2 d h => omega

theorem nearest_zero (e : Int) : nearest ⟨0, e⟩ = 0 := by
  have hpos : 0 < denominator ⟨0, e⟩ := denominator_pos _
  simp [nearest, numerator, Binary64.nearest, Binary64.roundQuotient, hpos]

theorem shortest_zero : shortest 0 = ⟨0, 0⟩ := if_pos rfl

theorem exists_strip_shortest {b : Nat} (h : b ≠ 0) : ∃ d : Decimal, shortest b = d.strip :=
  ⟨_, if_neg h⟩

/-- The last of the shortest digits of a double counts, unless it stands for zero. -/
theorem lastDigit_shortest {b : Nat} (h : b < Binary64.infinity) :
    (shortest b).exponent < 0 → (shortest b).digits % 10 ≠ 0 := by
  intro hneg
  by_cases hzero : b = 0
  · rw [hzero, shortest_zero] at hneg
    exact absurd hneg (Int.lt_irrefl 0)
  · obtain ⟨d, hd⟩ := exists_strip_shortest hzero
    rw [hd]
    refine (digits_strip d).resolve_left fun hdigits => hzero ?_
    calc b = (shortest b).nearest := (nearest_shortest h).symm
      _ = nearest ⟨0, d.strip.exponent⟩ := by rw [hd, ← hdigits]
      _ = 0 := nearest_zero _

end Decimal

end Bytecode
