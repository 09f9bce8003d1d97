import Bytecode.Text.Basic
import Bytecode.Value

/-!
# The characters of numerals and values

What is written of a number holds a few characters only: digits, a minus sign and
a point, and the letters of the words for the values that are no finite number.
So numerals and values can stand between blanks, quotes and newlines, and are
found again there.

* `Text.isFigure` — the characters of numbers; numerals (`isFigure_of_mem_decimal`,
  `isFigure_of_mem_signedDecimal`) and the texts of values
  (`Value.isFigure_of_mem_text`) have no others.
* `Text.getLast?_decimal` — a numeral ends in a digit.
* `Text.dropWhile_padLeft` — the blanks in front of a field can be told from it.
* `Text.readInteger` — reads the numeral of an integer back.
-/

namespace Bytecode

/-! ## Numerals -/

namespace Text

/-- A numeral has no characters but digits. -/
theorem isDigit_of_mem_decimal {n : Nat} {c : Char} (h : c ∈ decimal n) : c.isDigit = true :=
  Nat.isDigit_of_mem_toDigits (by decide) (by decide) h

theorem decimal_ne_nil (n : Nat) : decimal n ≠ [] :=
  List.ne_nil_of_length_pos (length_decimal_pos n)

/-- Besides digits, the numeral of an integer has a sign at most. -/
theorem mem_signedDecimal {i : Int} {c : Char} (h : c ∈ signedDecimal i) :
    c = '-' ∨ c.isDigit = true := by
  unfold signedDecimal at h
  split at h
  · rcases List.mem_cons.1 h with rfl | h
    · exact Or.inl rfl
    · exact Or.inr (isDigit_of_mem_decimal h)
  · exact Or.inr (isDigit_of_mem_decimal h)

theorem mem_padLeft {filler : Char} {width : Nat} {t : Text} {c : Char}
    (h : c ∈ padLeft filler width t) : c = filler ∨ c ∈ t := by
  rcases List.mem_append.1 h with h | h
  · exact Or.inl (List.eq_of_mem_replicate h)
  · exact Or.inr h

/-! ## The characters of numbers -/

/-- Whether a character can stand in a number, or in a word for one that is not finite. -/
def isFigure (c : Char) : Bool := c.isDigit || ['-', '.', 'N', 'a', 'i', 'n', 'f'].contains c

theorem isFigure_of_isDigit {c : Char} (h : c.isDigit = true) : isFigure c = true := by
  simp [isFigure, h]

theorem isFigure_of_mem_decimal {n : Nat} {c : Char} (h : c ∈ decimal n) : isFigure c = true :=
  isFigure_of_isDigit (isDigit_of_mem_decimal h)

/-- The numeral of an integer holds the characters of numbers only. -/
theorem isFigure_of_mem_signedDecimal {i : Int} {c : Char} (h : c ∈ signedDecimal i) :
    isFigure c = true := by
  rcases mem_signedDecimal h with rfl | h
  · decide
  · exact isFigure_of_isDigit h

theorem isBlank_of_isDigit {c : Char} (h : c.isDigit = true) : isBlank c = false := by
  have hrange : 48 ≤ c.toNat ∧ c.toNat ≤ 57 := by
    simp [Char.isDigit] at h
    exact h
  simp [isBlank]
  omega

/-- A numeral ends in a digit. -/
theorem getLast?_decimal (n : Nat) : ∃ c, (decimal n).getLast? = some c ∧ isBlank c = false := by
  refine ⟨(decimal n).getLast (decimal_ne_nil n), List.getLast?_eq_some_getLast _, ?_⟩
  exact isBlank_of_isDigit (isDigit_of_mem_decimal (List.getLast_mem _))

/-! ## Fields -/

/-- The blanks in front of a field can be told from it. -/
theorem dropWhile_padLeft (width : Nat) {t : Text} (hne : t ≠ []) (ht : ' ' ∉ t) (rest : Text) :
    (padLeft ' ' width t ++ rest).dropWhile (· == ' ') = t ++ rest := by
  obtain ⟨c, t, rfl⟩ := List.exists_cons_of_ne_nil hne
  have hc : c ≠ ' ' := by
    rintro rfl
    exact ht List.mem_cons_self
  have hblanks : ∀ d ∈ List.replicate (width - (c :: t).length) ' ', (d == ' ') = true := by
    intro d hd
    simp [List.eq_of_mem_replicate hd]
  rw [padLeft, List.append_assoc]
  exact dropWhile_run hblanks (by simp [hc])

theorem blank_not_mem_decimal (n : Nat) : ' ' ∉ decimal n := by
  intro h
  exact absurd (isDigit_of_mem_decimal h) (by decide)

/-! ## Reading integers back -/

/-- Reads the numeral of an integer. -/
def readInteger : Text → Int
  | '-' :: digits => -(Nat.ofDigitChars 10 digits 0 : Nat)
  | digits => (Nat.ofDigitChars 10 digits 0 : Nat)

/-- Reading is a left inverse of writing the numeral of an integer. -/
theorem readInteger_signedDecimal (i : Int) : readInteger (signedDecimal i) = i := by
  unfold signedDecimal
  by_cases hi : i < 0
  · rw [if_pos hi, readInteger, ofDigitChars_decimal]
    omega
  · obtain ⟨c, digits, hdecimal⟩ := List.exists_cons_of_ne_nil (decimal_ne_nil i.natAbs)
    have hc : c ≠ '-' := by
      rintro rfl
      have hmem : '-' ∈ decimal i.natAbs := hdecimal ▸ List.mem_cons_self
      exact absurd (isDigit_of_mem_decimal hmem) (by decide)
    rw [if_neg hi, hdecimal, readInteger, ← hdecimal, ofDigitChars_decimal]
    · omega
    · intro rest heq
      exact hc (List.cons.inj heq).1

end Text

/-! ## Values -/

open Text

theorem Decimal.isFigure_of_mem_positional {d : Decimal} {c : Char}
    (h : c ∈ d.positional false) : isFigure c = true := by
  have hdigits {c : Char} (h : c ∈ decimal d.digits) : isFigure c = true :=
    isFigure_of_mem_decimal h
  have hzeros {n : Nat} {c : Char} (h : c ∈ List.replicate n '0') : isFigure c = true := by
    rw [List.eq_of_mem_replicate h]
    decide
  unfold Decimal.positional at h
  dsimp only at h
  split at h
  · rcases List.mem_append.1 h with h | h
    · rcases List.mem_append.1 h with h | h
      · exact hdigits h
      · exact hzeros h
    · simp at h
  · split at h
    · rcases List.mem_append.1 h with h | h
      · exact hdigits (List.mem_of_mem_take h)
      · rcases List.mem_cons.1 h with rfl | h
        · decide
        · exact hdigits (List.mem_of_mem_drop h)
    · rcases List.mem_cons.1 h with rfl | h
      · decide
      · rcases List.mem_cons.1 h with rfl | h
        · decide
        · rcases List.mem_append.1 h with h | h
          · exact hzeros h
          · exact hdigits h

/-- The text of a value holds the characters of numbers only. -/
theorem Value.isFigure_of_mem_text {v : Value} {c : Char} (h : c ∈ v.text) : isFigure c = true := by
  have hnan : ∀ d ∈ "NaN".toList, isFigure d = true := List.all_eq_true.1 (by decide)
  have hinf : ∀ d ∈ "inf".toList, isFigure d = true := List.all_eq_true.1 (by decide)
  have hunsigned {c : Char} (h : c ∈ if v.magnitude = Binary64.infinity then "inf".toList
      else layout.write (Decimal.shortest v.magnitude)) : isFigure c = true := by
    split at h
    · exact hinf c h
    · exact Decimal.isFigure_of_mem_positional h
  unfold Value.text Value.write at h
  dsimp only at h
  split at h
  · exact hnan c h
  · split at h
    · rcases List.mem_cons.1 h with rfl | h
      · decide
      · exact hunsigned h
    · exact hunsigned h

end Bytecode
