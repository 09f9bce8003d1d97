/-!
# Texts

A text is a list of characters, so that what is printed can be reasoned about by
recursion; strings appear only where text enters or leaves.  Fields are filled with
blanks up to a width and are never cut: a text wider than its field is kept whole.
Blanks at the end of a text can be cut off: those are the characters with the Unicode
property `White_Space`.

* `Text.length_padLeft` — a field is as wide as asked, or as its text.
* `Text.takeWhile_run`, `Text.dropWhile_run` — a run of characters of one kind can be
  told from what stands behind it.
* `Text.ofDigitChars_decimal` — the decimal numeral of a number tells the number.
* `Text.trimEnd_eq_self` — a text that does not end in a blank is kept.
-/

namespace Bytecode

/-- Text as the list of its characters. -/
abbrev Text := List Char

namespace Text

/-! ## Fields -/

/-- Right-justifies `t` in a field of `width`, with `filler` on the left. -/
def padLeft (filler : Char) (width : Nat) (t : Text) : Text :=
  List.replicate (width - t.length) filler ++ t

/-- Left-justifies `t` in a field of `width`, with blanks on the right. -/
def padRight (width : Nat) (t : Text) : Text :=
  t ++ List.replicate (width - t.length) ' '

/-- A field is as wide as asked, or as its text. -/
theorem length_padLeft (filler : Char) (width : Nat) (t : Text) :
    (padLeft filler width t).length = max width t.length := by
  simp [padLeft]
  omega

/-! ## Runs -/

section Runs

variable {p : Char → Bool} {run rest : Text}

/-- A run of characters of one kind ends where another kind begins. -/
theorem takeWhile_run (hrun : ∀ c ∈ run, p c = true) (hrest : ∀ c ∈ rest.head?, p c = false) :
    (run ++ rest).takeWhile p = run := by
  rw [List.takeWhile_append_of_pos hrun]
  cases rest with
  | nil => simp
  | cons c rest => simp [hrest c rfl]

/-- What stands behind a run begins there. -/
theorem dropWhile_run (hrun : ∀ c ∈ run, p c = true) (hrest : ∀ c ∈ rest.head?, p c = false) :
    (run ++ rest).dropWhile p = rest := by
  rw [List.dropWhile_append_of_pos hrun]
  cases rest with
  | nil => rfl
  | cons c rest => simp [hrest c rfl]

end Runs

/-! ## Numerals -/

/-- The decimal numeral of a natural number, without leading zeros. -/
def decimal (n : Nat) : Text := Nat.toDigits 10 n

/-- The hexadecimal numeral of a natural number, in lower case and without leading zeros. -/
def hexadecimal (n : Nat) : Text := Nat.toDigits 16 n

/-- The decimal numeral of an integer: a minus sign before the magnitude of a negative number. -/
def signedDecimal (i : Int) : Text :=
  if i < 0 then '-' :: decimal i.natAbs else decimal i.natAbs

/-- The decimal numeral of a number tells the number. -/
theorem ofDigitChars_decimal (n : Nat) : Nat.ofDigitChars 10 (decimal n) 0 = n :=
  Nat.ofDigitChars_toDigits (by decide) (by decide)

theorem length_decimal_pos (n : Nat) : 0 < (decimal n).length :=
  Nat.length_toDigits_pos

/-! ## Separators -/

/-- Joins texts, with `separator` between neighbours. -/
def join (separator : Text) (parts : List Text) : Text :=
  separator.intercalate parts

/-! ## Blanks -/

/-- Whether a character has the Unicode property `White_Space`. -/
def isBlank (c : Char) : Bool :=
  let n := c.toNat
  (0x09 ≤ n && n ≤ 0x0d) || n == 0x20 || n == 0x85 || n == 0xa0 || n == 0x1680 ||
    (0x2000 ≤ n && n ≤ 0x200a) || n == 0x2028 || n == 0x2029 || n == 0x202f || n == 0x205f ||
    n == 0x3000

/-- Cuts the blanks off the end of a text. -/
def trimEnd (t : Text) : Text :=
  (t.reverse.dropWhile isBlank).reverse

theorem trimEnd_append_singleton {t : Text} {c : Char} (h : isBlank c = false) :
    trimEnd (t ++ [c]) = t ++ [c] := by
  simp [trimEnd, h]

/-- A text that does not end in a blank is kept. -/
theorem trimEnd_eq_self {t : Text} (h : ∀ c ∈ t.getLast?, isBlank c = false) : trimEnd t = t := by
  rcases List.eq_nil_or_concat t with rfl | ⟨s, c, rfl⟩
  · rfl
  · rw [List.concat_eq_append] at h ⊢
    exact trimEnd_append_singleton (h c (by simp))

end Text

end Bytecode
