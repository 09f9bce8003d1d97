import Bytecode.Integer
import Mathlib.Data.List.TakeWhile
import Mathlib.Data.Nat.Digits.Defs

/-!
# What integers are spelled by

An integer is read digit by digit against a range.  Here it is said, of the text
alone and without reading it, which texts are integers of the range and what is
wrong with the others: the value of a numeral is a sum over the powers of its base,
and the range is left as soon as the digits that a text starts with are worth more
than the largest number.

* `Integer.numeralValue`, `Integer.IsNumeral` — the texts of natural numbers, in
  bases up to sixteen.
* `Integer.digit?_eq` — a character is read as the digit that it is.
* `Integer.readDigits_eq_ok_iff`, `Integer.readDigits_eq_outside_iff` — a text is
  read iff it holds digits worth a number in range, and it leads out of the range
  iff its leading digits do.
* `Integer.readNat_eq_ok_iff` and the lemmas beside it — the same behind a plus sign.
* `Integer.readInt32_eq_ok_iff` — and behind either sign.
* `Integer.spelled_readByte` — a byte is read iff the text spells one, behind the
  mark of its base.
-/

namespace Bytecode.Integer

/-! ## Numerals -/

/-- The digits, each at the place of its value. -/
def figures : Text := "0123456789abcdef".toList

/-- What a character is worth as a digit, in either case of letters.  A character that is no digit
is worth more than the largest one. -/
def worth (c : Char) : Nat := figures.idxOf c.toLower

/-- Whether a character is a digit of a base up to sixteen. -/
def isDigitOf (base : Nat) (c : Char) : Bool := worth c < base

/-- The value of a numeral: the sum of what its digits are worth, each times the power of the base
that belongs to its place. -/
def numeralValue (base : Nat) (t : Text) : Nat := Nat.ofDigits base (t.reverse.map worth)

/-- A numeral has a digit, and nothing but digits. -/
def IsNumeral (base : Nat) (t : Text) : Prop := t ≠ [] ∧ ∀ c ∈ t, isDigitOf base c = true

/-- The digits that a text starts with. -/
def leadingDigits (base : Nat) (t : Text) : Text := t.takeWhile (isDigitOf base)

section Numerals

variable {base : Nat} {c : Char} {t : Text}

theorem numeralValue_nil : numeralValue base [] = 0 := rfl

theorem numeralValue_cons :
    numeralValue base (c :: t) = worth c * base ^ t.length + numeralValue base t := by
  rw [numeralValue, List.reverse_cons, List.map_append, Nat.ofDigits_append, List.length_map,
    List.length_reverse, List.map_singleton, Nat.ofDigits_singleton, numeralValue, Nat.mul_comm,
    Nat.add_comm]

theorem leadingDigits_eq_self (h : ∀ c ∈ t, isDigitOf base c = true) : leadingDigits base t = t :=
  List.takeWhile_eq_self_iff.2 h

theorem leadingDigits_cons_of_digit (h : isDigitOf base c = true) :
    leadingDigits base (c :: t) = c :: leadingDigits base t :=
  List.takeWhile_cons_of_pos h

theorem leadingDigits_cons_of_other (h : isDigitOf base c = false) :
    leadingDigits base (c :: t) = [] :=
  List.takeWhile_cons_of_neg (by simp [h])

end Numerals

/-! ## One digit -/

/-- All digits are among the first 128 characters, and so are the letters that have two cases. -/
theorem worth_of_le {c : Char} (h : 128 ≤ c.toNat) : worth c = 16 := by
  have hlower : c.toLower = c := by
    refine dif_neg ?_
    rintro ⟨-, hz⟩
    have : c.toNat ≤ 90 := hz
    omega
  have hfigures : figures.all (·.toNat < 128) = true := by decide
  have hmem : c ∉ figures := by
    intro hc
    have := of_decide_eq_true (List.all_eq_true.1 hfigures c hc)
    omega
  rw [worth, hlower, List.idxOf_eq_length hmem]
  rfl

/-- No character behind the first 128 is read as a digit. -/
theorem digit?_of_le (base : Nat) {c : Char} (h : 128 ≤ c.toNat) : digit? base c = none := by
  have hrange (low high : Char) (hhigh : high.toNat < 128) : ¬ (low ≤ c ∧ c ≤ high) := by
    rintro ⟨-, hle⟩
    have : c.toNat ≤ high.toNat := hle
    omega
  simp only [digit?, hrange _ '9' (by decide), hrange _ 'z' (by decide), hrange _ 'Z' (by decide),
    if_false, Option.filter_none]

/-- A character is read as the digit that it is, and one that is no digit is not read. -/
theorem digit?_eq {base : Nat} (hbase : base ≤ 16) (c : Char) :
    digit? base c = if isDigitOf base c = true then some (worth c) else none := by
  rcases Nat.lt_or_ge c.toNat 128 with h | h
  · have hall : ∀ n < 128, ∀ b ≤ 16, digit? b (Char.ofNat n) =
        if isDigitOf b (Char.ofNat n) = true then some (worth (Char.ofNat n)) else none := by
      decide +kernel
    have hc := hall c.toNat h base hbase
    rwa [Char.ofNat_toNat] at hc
  · have hother : isDigitOf base c = false := by
      rw [isDigitOf, worth_of_le h]
      simpa using hbase
    rw [digit?_of_le base h, hother]
    rfl

/-! ## Digits behind others -/

/-- What a run of digits is worth behind digits that are worth `value`. -/
def valueBehind (base value : Nat) (t : Text) : Nat :=
  value * base ^ t.length + numeralValue base t

section Reading

variable {base largest value : Nat} {outside : Fault} {c : Char} {t : Text}

theorem valueBehind_zero : valueBehind base 0 t = numeralValue base t := by
  rw [valueBehind, Nat.zero_mul, Nat.zero_add]

theorem valueBehind_nil : valueBehind base value [] = value := by
  simp [valueBehind, numeralValue_nil]

/-- The digit in front goes to those before the run. -/
theorem valueBehind_cons :
    valueBehind base value (c :: t) = valueBehind base (base * value + worth c) t := by
  rw [valueBehind, valueBehind, numeralValue_cons, List.length_cons, pow_succ]
  ring

/-- Further digits make no number smaller. -/
theorem le_valueBehind (hbase : 0 < base) : value ≤ valueBehind base value t :=
  (Nat.le_mul_of_pos_right value (Nat.pow_pos hbase)).trans (Nat.le_add_right _ _)

theorem readDigits_cons_of_other (hbase : base ≤ 16) (h : isDigitOf base c = false) :
    readDigits base largest outside value (c :: t) = .error .invalidDigit := by
  rw [readDigits_cons, digit?_eq hbase, if_neg (by simp [h])]

theorem readDigits_cons_of_le (hbase : base ≤ 16) (h : isDigitOf base c = true)
    (hle : base * value + worth c ≤ largest) :
    readDigits base largest outside value (c :: t) =
      readDigits base largest outside (base * value + worth c) t := by
  rw [readDigits_cons, digit?_eq hbase, if_pos h]
  exact if_pos hle

theorem readDigits_cons_of_lt (hbase : base ≤ 16) (h : isDigitOf base c = true)
    (hlt : largest < base * value + worth c) :
    readDigits base largest outside value (c :: t) = .error outside := by
  rw [readDigits_cons, digit?_eq hbase, if_pos h]
  exact if_neg (Nat.not_le.2 hlt)

/-- Digits are read iff there is nothing else and they are worth a number in range. -/
theorem readDigits_eq_ok_iff (hpos : 0 < base) (hbase : base ≤ 16) (hvalue : value ≤ largest)
    {n : Nat} :
    readDigits base largest outside value t = .ok n ↔
      (∀ c ∈ t, isDigitOf base c = true) ∧ valueBehind base value t = n ∧ n ≤ largest := by
  induction t generalizing value with
  | nil =>
    simp only [readDigits, valueBehind_nil, Except.ok.injEq, List.not_mem_nil, false_implies,
      implies_true, true_and]
    constructor
    · rintro rfl
      exact ⟨rfl, hvalue⟩
    · exact And.left
  | cons c t ih =>
    cases hc : isDigitOf base c with
    | false =>
      rw [readDigits_cons_of_other hbase hc]
      simp [hc]
    | true =>
      rw [valueBehind_cons, List.forall_mem_cons]
      rcases Nat.lt_or_ge largest (base * value + worth c) with hlt | hle
      · -- The number only grows from here.
        have hgrows : base * value + worth c ≤ valueBehind base (base * value + worth c) t :=
          le_valueBehind hpos
        rw [readDigits_cons_of_lt hbase hc hlt]
        refine iff_of_false (by simp) ?_
        rintro ⟨-, rfl, hn⟩
        omega
      · rw [readDigits_cons_of_le hbase hc hle, ih hle]
        simp [hc]

/-- Reading leads out of the range iff the digits in front do, whatever comes behind them. -/
theorem readDigits_eq_outside_iff (hpos : 0 < base) (hbase : base ≤ 16)
    (hfault : outside ≠ .invalidDigit) (hvalue : value ≤ largest) :
    readDigits base largest outside value t = .error outside ↔
      largest < valueBehind base value (leadingDigits base t) := by
  induction t generalizing value with
  | nil => simp [readDigits, leadingDigits, valueBehind_nil, hvalue]
  | cons c t ih =>
    cases hc : isDigitOf base c with
    | false =>
      rw [readDigits_cons_of_other hbase hc, leadingDigits_cons_of_other hc, valueBehind_nil]
      simp [hfault.symm, hvalue]
    | true =>
      rw [leadingDigits_cons_of_digit hc, valueBehind_cons]
      rcases Nat.lt_or_ge largest (base * value + worth c) with hlt | hle
      · rw [readDigits_cons_of_lt hbase hc hlt]
        exact iff_of_true rfl (hlt.trans_le (le_valueBehind hpos))
      · rw [readDigits_cons_of_le hbase hc hle, ih hle]

theorem eq_outside_or_invalidDigit {e : Fault}
    (h : readDigits base largest outside value t = .error e) :
    e = outside ∨ e = .invalidDigit := by
  induction t generalizing value with
  | nil => contradiction
  | cons c t ih =>
    rw [readDigits_cons] at h
    split at h
    · cases h
      exact .inr rfl
    · split at h
      · exact ih h
      · cases h
        exact .inl rfl

end Reading

/-! ## Natural numbers -/

/-- A text without the plus sign in front of it, unless there is nothing else. -/
def unsigned : Text → Text
  | '+' :: c :: rest => c :: rest
  | t => t

section Natural

variable {base largest : Nat} {t : Text}

/-- Behind its sign, a text is read digit by digit. -/
theorem readNat_eq (h : t ≠ []) :
    readNat base largest t = readDigits base largest .tooLarge 0 (unsigned t) := by
  obtain ⟨c, rest, rfl⟩ := List.exists_cons_of_ne_nil h
  by_cases hsign : c = '+'
  · subst hsign
    cases rest <;> rfl
  · simp [readNat, unsigned, hsign]

theorem unsigned_ne_nil (h : t ≠ []) : unsigned t ≠ [] := by
  fun_cases unsigned t with
  | case1 => simp
  | case2 => exact h

theorem readNat_eq_empty_iff : readNat base largest t = .error .empty ↔ t = [] := by
  constructor
  · intro h
    by_contra hne
    rw [readNat_eq hne] at h
    rcases eq_outside_or_invalidDigit h with h | h <;> cases h
  · rintro rfl
    rfl

/-- A text is read as a number iff it is a numeral of one in range behind its sign. -/
theorem readNat_eq_ok_iff (hpos : 0 < base) (hbase : base ≤ 16) {n : Nat} :
    readNat base largest t = .ok n ↔
      IsNumeral base (unsigned t) ∧ numeralValue base (unsigned t) = n ∧ n ≤ largest := by
  by_cases h : t = []
  · subst h
    simp [readNat, unsigned, IsNumeral]
  · rw [readNat_eq h, readDigits_eq_ok_iff hpos hbase (Nat.zero_le _), valueBehind_zero, IsNumeral]
    simp [unsigned_ne_nil h]

/-- A number is too large as soon as the digits in front are. -/
theorem readNat_eq_tooLarge_iff (hpos : 0 < base) (hbase : base ≤ 16) :
    readNat base largest t = .error .tooLarge ↔
      largest < numeralValue base (leadingDigits base (unsigned t)) := by
  by_cases h : t = []
  · subst h
    simp [readNat, unsigned, leadingDigits, numeralValue_nil]
  · rw [readNat_eq h, readDigits_eq_outside_iff hpos hbase (by simp) (Nat.zero_le _),
      valueBehind_zero]

/-- Every text is read as a number, or it has one of three faults. -/
theorem readNat_cases (base largest : Nat) (t : Text) :
    (∃ n, readNat base largest t = .ok n) ∨ readNat base largest t = .error .empty ∨
      readNat base largest t = .error .tooLarge ∨
        readNat base largest t = .error .invalidDigit := by
  cases hread : readNat base largest t with
  | ok n => exact .inl ⟨n, rfl⟩
  | error e =>
    by_cases h : t = []
    · rw [← hread]
      exact .inr (.inl (readNat_eq_empty_iff.2 h))
    · rw [readNat_eq h] at hread
      rcases eq_outside_or_invalidDigit hread with rfl | rfl <;> simp

/-- A digit is missing or misplaced where nothing else is wrong. -/
theorem readNat_eq_invalidDigit_iff (hpos : 0 < base) (hbase : base ≤ 16) :
    readNat base largest t = .error .invalidDigit ↔
      t ≠ [] ∧ ¬ IsNumeral base (unsigned t) ∧
        numeralValue base (leadingDigits base (unsigned t)) ≤ largest := by
  have hok (n : Nat) : readNat base largest t = .ok n ↔
      IsNumeral base (unsigned t) ∧ numeralValue base (unsigned t) = n ∧ n ≤ largest :=
    readNat_eq_ok_iff hpos hbase
  have hlarge : readNat base largest t = .error .tooLarge ↔
      largest < numeralValue base (leadingDigits base (unsigned t)) :=
    readNat_eq_tooLarge_iff hpos hbase
  have hempty : readNat base largest t = .error .empty ↔ t = [] := readNat_eq_empty_iff
  constructor
  · intro h
    rw [h] at hok hlarge hempty
    have hle : numeralValue base (leadingDigits base (unsigned t)) ≤ largest := by
      by_contra hlt
      exact absurd (hlarge.2 (Nat.not_le.1 hlt)) (by simp)
    refine ⟨fun hnil => absurd (hempty.2 hnil) (by simp), fun hnumeral => ?_, hle⟩
    rw [leadingDigits_eq_self hnumeral.2] at hle
    exact absurd ((hok _).2 ⟨hnumeral, rfl, hle⟩) (by simp)
  · rintro ⟨hne, hnumeral, hle⟩
    rcases readNat_cases base largest t with ⟨n, h⟩ | h | h | h
    · exact absurd ((hok n).1 h).1 hnumeral
    · exact absurd (hempty.1 h) hne
    · exact absurd (hlarge.1 h) (Nat.not_lt.2 hle)
    · exact h

end Natural

/-! ## Integers of 32 bits -/

/-- The integer that a text spells: digits behind an optional sign. -/
inductive IsInteger : Text → Int → Prop
  | plain {digits : Text} (h : IsNumeral 10 digits) : IsInteger digits (numeralValue 10 digits)
  | plus {digits : Text} (h : IsNumeral 10 digits) :
    IsInteger ('+' :: digits) (numeralValue 10 digits)
  | minus {digits : Text} (h : IsNumeral 10 digits) :
    IsInteger ('-' :: digits) (-(numeralValue 10 digits : Int))

section Signed

variable {t digits : Text} {i : Int} {n : Int32}

theorem not_isNumeral_cons {c : Char} (h : isDigitOf 10 c = false) :
    ¬ IsNumeral 10 (c :: digits) := by
  intro hnumeral
  have hc := hnumeral.2 c List.mem_cons_self
  simp [h] at hc

theorem isInteger_minus_iff :
    IsInteger ('-' :: digits) i ↔ IsNumeral 10 digits ∧ i = -(numeralValue 10 digits : Int) := by
  constructor
  · rintro (h | h | h)
    · exact absurd h (not_isNumeral_cons (by decide))
    · exact ⟨h, rfl⟩
  · rintro ⟨h, rfl⟩
    exact .minus h

theorem isInteger_iff_unsigned (hminus : ∀ rest, t ≠ '-' :: rest) :
    IsInteger t i ↔ IsNumeral 10 (unsigned t) ∧ i = numeralValue 10 (unsigned t) := by
  constructor
  · rintro (h | h | h)
    · have hsign : unsigned t = t := by
        unfold unsigned
        split
        · exact absurd h (not_isNumeral_cons (by decide))
        · rfl
      rw [hsign]
      exact ⟨h, rfl⟩
    · obtain ⟨c, rest, rfl⟩ := List.exists_cons_of_ne_nil h.1
      exact ⟨h, rfl⟩
    · exact absurd rfl (hminus _)
  · rintro ⟨h, rfl⟩
    unfold unsigned at h ⊢
    split at h
    · exact .plus h
    · exact .plain h

/-- Behind a minus sign, the digits are those of a natural number. -/
theorem readInt32_minus (h : digits ≠ []) :
    readInt32 ('-' :: digits) =
      (readDigits 10 0x80000000 .tooSmall 0 digits).map
        fun m : Nat => Int32.ofInt (-(m : Int)) := by
  rw [readInt32]
  · cases readDigits 10 0x80000000 .tooSmall 0 digits <;> rfl
  · rintro rfl
    exact h rfl

theorem readInt32_of_ne_minus (h : ∀ rest, t ≠ '-' :: rest) :
    readInt32 t = (readNat 10 0x7fffffff t).map fun m : Nat => Int32.ofInt (m : Int) := by
  rw [readInt32]
  · cases readNat 10 0x7fffffff t <;> rfl
  · exact h []
  · exact h

/-- Where an integer of 32 bits is made from a number that is read, the number is in range. -/
theorem map_ofInt_eq_ok_iff {answer : Except Fault Nat} {f : Nat → Int}
    (h : ∀ m, answer = .ok m → -0x80000000 ≤ f m ∧ f m < 0x80000000) :
    answer.map (fun m => Int32.ofInt (f m)) = .ok n ↔ ∃ m, answer = .ok m ∧ n.toInt = f m := by
  cases answer with
  | error e => simp [Except.map]
  | ok m =>
    obtain ⟨hlow, hhigh⟩ := h m rfl
    simp only [Except.map, Except.ok.injEq, exists_eq_left']
    rw [← Int32.toInt_inj, Int32.toInt_ofInt_of_le hlow hhigh, eq_comm]

theorem readInt32_minus_eq_ok_iff :
    readInt32 ('-' :: digits) = .ok n ↔ IsInteger ('-' :: digits) n.toInt := by
  rw [isInteger_minus_iff]
  by_cases hne : digits = []
  · subst hne
    simp [readInt32, IsNumeral]
  · have hread (m : Nat) : readDigits 10 0x80000000 .tooSmall 0 digits = .ok m ↔
        (∀ c ∈ digits, isDigitOf 10 c = true) ∧ valueBehind 10 0 digits = m ∧ m ≤ 0x80000000 :=
      readDigits_eq_ok_iff (by decide) (by decide) (Nat.zero_le _)
    rw [readInt32_minus hne, map_ofInt_eq_ok_iff]
    · simp only [hread, valueBehind_zero, IsNumeral]
      constructor
      · rintro ⟨m, ⟨hdigits, rfl, -⟩, hn⟩
        exact ⟨⟨hne, hdigits⟩, hn⟩
      · rintro ⟨⟨-, hdigits⟩, hn⟩
        have hlow := n.le_toInt
        exact ⟨_, ⟨hdigits, rfl, by omega⟩, hn⟩
    · intro m hm
      obtain ⟨-, -, hle⟩ := (hread m).1 hm
      omega

theorem readInt32_of_ne_minus_eq_ok_iff (hminus : ∀ rest, t ≠ '-' :: rest) :
    readInt32 t = .ok n ↔ IsInteger t n.toInt := by
  have hread (m : Nat) : readNat 10 0x7fffffff t = .ok m ↔
      IsNumeral 10 (unsigned t) ∧ numeralValue 10 (unsigned t) = m ∧ m ≤ 0x7fffffff :=
    readNat_eq_ok_iff (by decide) (by decide)
  rw [isInteger_iff_unsigned hminus, readInt32_of_ne_minus hminus, map_ofInt_eq_ok_iff]
  · simp only [hread]
    constructor
    · rintro ⟨m, ⟨hnumeral, rfl, -⟩, hn⟩
      exact ⟨hnumeral, hn⟩
    · rintro ⟨hnumeral, hn⟩
      have hhigh := n.toInt_lt
      exact ⟨_, ⟨hnumeral, rfl, by omega⟩, hn⟩
  · intro m hm
    obtain ⟨-, -, hle⟩ := (hread m).1 hm
    omega

/-- An integer of 32 bits is read iff the text spells it. -/
theorem readInt32_eq_ok_iff : readInt32 t = .ok n ↔ IsInteger t n.toInt := by
  by_cases h : ∃ rest, t = '-' :: rest
  · obtain ⟨rest, rfl⟩ := h
    exact readInt32_minus_eq_ok_iff
  · exact readInt32_of_ne_minus_eq_ok_iff fun rest hrest => h ⟨rest, hrest⟩

/-- A text is read as an integer of 32 bits iff it spells one in range. -/
theorem exists_readInt32_iff :
    (∃ n, readInt32 t = .ok n) ↔ ∃ i, IsInteger t i ∧ -0x80000000 ≤ i ∧ i < 0x80000000 := by
  simp only [readInt32_eq_ok_iff]
  constructor
  · rintro ⟨n, h⟩
    exact ⟨n.toInt, h, n.le_toInt, n.toInt_lt⟩
  · rintro ⟨i, h, hlow, hhigh⟩
    refine ⟨Int32.ofInt i, ?_⟩
    rwa [Int32.toInt_ofInt_of_le hlow hhigh]

end Signed

/-! ## Bytes -/

/-- The base of a byte's numeral and the text behind its mark: sixteen behind `0x` or `0X`, and ten
where there is no mark. -/
def behindMark : Text → Nat × Text
  | '0' :: 'x' :: rest => (16, rest)
  | '0' :: 'X' :: rest => (16, rest)
  | t => (10, t)

theorem readByte_eq (s : Text) :
    readByte s = (readNat (behindMark s).1 255 (behindMark s).2).map UInt8.ofNat := by
  unfold behindMark
  split
  · rfl
  · rfl
  · rename_i hx hX
    rw [readByte]
    · exact hx
    · exact hX

theorem map_ofNat_eq_ok_iff {answer : Except Fault Nat} {b : UInt8}
    (h : ∀ n, answer = .ok n → n ≤ 255) :
    answer.map UInt8.ofNat = .ok b ↔ answer = .ok b.toNat := by
  cases answer with
  | error e => simp [Except.map]
  | ok n =>
    have hn : n < UInt8.size := Nat.lt_succ_of_le (h n rfl)
    simp only [Except.map, Except.ok.injEq]
    rw [← UInt8.toNat_inj, UInt8.toNat_ofNat_of_lt' hn]

theorem map_eq_error_iff {answer : Except Fault Nat} {e : Fault} {f : Nat → UInt8} :
    answer.map f = .error e ↔ answer = .error e := by
  cases answer <;> simp [Except.map]

/-- How a byte is read from a text in a base, told from the text alone. -/
structure SpellsByte (base : Nat) (t : Text) (answer : Except Fault UInt8) : Prop where
  /-- A byte is read iff the text is a numeral of it behind a plus sign that need not be there. -/
  byte : ∀ b : UInt8, answer = .ok b ↔
    IsNumeral base (unsigned t) ∧ numeralValue base (unsigned t) = b.toNat
  /-- Any numeral of a number up to 255 will do, however many zeros it starts with. -/
  accepted : (∃ b, answer = .ok b) ↔
    IsNumeral base (unsigned t) ∧ numeralValue base (unsigned t) ≤ 255
  empty : answer = .error .empty ↔ t = []
  /-- The number is too large iff the digits in front are worth too much already. -/
  tooLarge : answer = .error .tooLarge ↔
    255 < numeralValue base (leadingDigits base (unsigned t))
  /-- All other texts lack a digit, or hold a character that is none. -/
  invalidDigit : answer = .error .invalidDigit ↔
    ¬ (IsNumeral base (unsigned t) ∧ numeralValue base (unsigned t) ≤ 255) ∧ t ≠ [] ∧
      ¬ 255 < numeralValue base (leadingDigits base (unsigned t))
  /-- There is no other fault. -/
  faults : ∀ e, answer = .error e → e = .empty ∨ e = .tooLarge ∨ e = .invalidDigit

/-- What a text comes to where bytes are expected, in any base. -/
theorem spellsByte_readNat {base : Nat} (hpos : 0 < base) (hbase : base ≤ 16) (t : Text) :
    SpellsByte base t ((readNat base 255 t).map UInt8.ofNat) := by
  have hok (n : Nat) : readNat base 255 t = .ok n ↔
      IsNumeral base (unsigned t) ∧ numeralValue base (unsigned t) = n ∧ n ≤ 255 :=
    readNat_eq_ok_iff hpos hbase
  have hbyte : ∀ b : UInt8, (readNat base 255 t).map UInt8.ofNat = .ok b ↔
      IsNumeral base (unsigned t) ∧ numeralValue base (unsigned t) = b.toNat := by
    intro b
    have hb : b.toNat ≤ 255 := Nat.le_of_lt_succ b.toNat_lt
    rw [map_ofNat_eq_ok_iff fun n hn => ((hok n).1 hn).2.2, hok]
    simp [hb]
  constructor
  case byte => exact hbyte
  case accepted =>
    simp only [hbyte, exists_and_left]
    refine and_congr_right fun _ => ⟨?_, fun hle => ?_⟩
    · rintro ⟨b, hb⟩
      rw [hb]
      exact Nat.le_of_lt_succ b.toNat_lt
    · exact ⟨UInt8.ofNat (numeralValue base (unsigned t)),
        (UInt8.toNat_ofNat_of_lt' (Nat.lt_succ_of_le hle)).symm⟩
  case empty => rw [map_eq_error_iff, readNat_eq_empty_iff]
  case tooLarge => rw [map_eq_error_iff, readNat_eq_tooLarge_iff hpos hbase]
  case invalidDigit =>
    rw [map_eq_error_iff, readNat_eq_invalidDigit_iff hpos hbase]
    constructor
    · rintro ⟨hne, hnumeral, hle⟩
      exact ⟨fun h => hnumeral h.1, hne, Nat.not_lt.2 hle⟩
    · rintro ⟨hother, hne, hle⟩
      refine ⟨hne, fun hnumeral => ?_, Nat.not_lt.1 hle⟩
      rw [leadingDigits_eq_self hnumeral.2] at hle
      exact hother ⟨hnumeral, Nat.not_lt.1 hle⟩
  case faults =>
    intro e he
    rw [map_eq_error_iff] at he
    rcases readNat_cases base 255 t with ⟨n, h⟩ | h | h | h <;> rw [h] at he <;> cases he <;> simp

/-- **A byte is read iff the text spells one.**  Behind the mark of its base and a plus sign, the
text is a numeral of at most 255; which fault any other text has is told by its leading digits. -/
theorem spelled_readByte (s : Text) :
    SpellsByte (behindMark s).1 (behindMark s).2 (readByte s) := by
  have hbase : 0 < (behindMark s).1 ∧ (behindMark s).1 ≤ 16 := by
    unfold behindMark
    split <;> simp
  rw [readByte_eq]
  exact spellsByte_readNat hbase.1 hbase.2 _

example : readByte "0X+00fF".toList = .ok 255 := by decide

-- The second mark is met before the range is left, the letter `g` after it.
example : readByte "0x0x1".toList = .error .invalidDigit ∧
    readByte "0x100g".toList = .error .tooLarge := by decide

end Bytecode.Integer
