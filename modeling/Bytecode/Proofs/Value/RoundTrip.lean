import Bytecode.Proofs.Decimal.FewestDigits

/-!
# Values that are written and read back

A value is written as a word or as a positional number, with no more digits than are
needed to read the same value back, down to the sign of zero.  So the text of a value
tells its bits, unless it stands for no number.

* `Value.ofMagnitude_magnitude` — a value is its sign and its magnitude.
* `Value.text_of_isNaN`, `Value.text_of_infinite`, `Value.text_of_finite` — the three
  forms of a text.
* `Value.read_text` — reading is a left inverse of writing.
* `Value.RoundTrips` — what the text of a value looks like, and what it tells.
* `Value.roundTrips_text` — all of that holds of every value.
-/

namespace Bytecode.Value

/-! ## Signs and magnitudes -/

/-- A value is its sign and its magnitude. -/
theorem ofMagnitude_magnitude (v : Value) : ofMagnitude v.isNegative v.magnitude = v := by
  have hbits : v.bits.toNat < 2 * Binary64.signBit := v.bits.toNat_lt
  have hsum : (if v.isNegative then Binary64.signBit + v.magnitude else v.magnitude) =
      v.bits.toNat := by
    by_cases h : Binary64.signBit ≤ v.bits.toNat
    · have hnegative : v.isNegative = true := decide_eq_true h
      rw [if_pos hnegative, magnitude, Nat.mod_eq_sub_mod h, Nat.mod_eq_of_lt (by omega),
        Nat.add_sub_cancel' h]
    · have hpositive : ¬v.isNegative = true := by simpa [isNegative] using h
      rw [if_neg hpositive, magnitude, Nat.mod_eq_of_lt (Nat.not_le.1 h)]
  rw [ofMagnitude, hsum, UInt64.ofNat_toNat]

theorem isNaN_nan : nan.isNaN = true := by
  decide

/-! ## The forms of a text -/

section Forms

variable {v : Value}

/-- A text behind the sign of a value. -/
def signed (negative : Bool) (t : Text) : Text := if negative then '-' :: t else t

theorem text_of_isNaN (h : v.isNaN = true) : v.text = "NaN".toList := if_pos h

theorem text_of_infinite (h : v.magnitude = Binary64.infinity) :
    v.text = signed v.isNegative "inf".toList := by
  have hnumber : ¬v.isNaN = true := by simp [isNaN, h]
  rw [text, write, if_neg hnumber, if_pos h]
  rfl

theorem text_of_finite (h : v.magnitude < Binary64.infinity) :
    v.text = signed v.isNegative ((Decimal.shortest v.magnitude).positional false) := by
  have hnumber : ¬v.isNaN = true := by
    simp only [isNaN, decide_eq_true_eq]
    omega
  rw [text, write, if_neg hnumber, if_neg (Nat.ne_of_lt h)]
  rfl

end Forms

/-! ## Reading back -/

section Reading

variable {v : Value} {negative : Bool} {t : Text}

/-- What stands behind a sign is read as the number without it. -/
theorem read_signed {c : Char} (hminus : c ≠ '-') (hplus : c ≠ '+') :
    read (signed negative (c :: t)) = readUnsigned negative (c :: t) := by
  cases negative with
  | true => rfl
  | false =>
    show read (c :: t) = _
    unfold read
    split
    · contradiction
    · rename_i heq
      exact absurd (List.cons.inj heq).1 hminus
    · rename_i heq
      exact absurd (List.cons.inj heq).1 hplus
    · rfl

theorem readUnsigned_positional (d : Decimal) :
    readUnsigned negative (d.positional false) = .ok (ofMagnitude negative d.nearest) := by
  obtain ⟨e, hread, hnearest⟩ := d.exists_read?_positional
  rw [readUnsigned, hread, ← hnearest]
  rfl

/-- A positional number starts with a digit, so with no sign of its own. -/
theorem exists_cons_of_isPositional (h : Decimal.IsPositional t) :
    ∃ c rest, t = c :: rest ∧ c.isDigit = true := by
  cases h with
  | whole hne hdigits =>
    obtain ⟨c, rest, rfl⟩ := List.exists_cons_of_ne_nil hne
    exact ⟨c, rest, rfl, hdigits c List.mem_cons_self⟩
  | fraction hne hwhole =>
    obtain ⟨c, rest, rfl⟩ := List.exists_cons_of_ne_nil hne
    exact ⟨c, _, rfl, hwhole c List.mem_cons_self⟩

theorem isPositional_shortest (h : v.magnitude < Binary64.infinity) :
    Decimal.IsPositional ((Decimal.shortest v.magnitude).positional false) :=
  Decimal.isPositional_positional (Decimal.lastDigit_shortest h)

/-- A double is the nearest one to the number that is written of it. -/
theorem isNearest_shortest (h : v.magnitude < Binary64.infinity) :
    Binary64.IsNearest (Decimal.shortest v.magnitude).value v.magnitude := by
  have hnearest := (Decimal.shortest v.magnitude).isNearest_value
  rwa [Decimal.nearest_shortest h] at hnearest

/-- Reading is a left inverse of writing, as far as values stand for numbers. -/
theorem read_text (h : v.isNaN = false) : read v.text = .ok v := by
  rcases Nat.lt_or_ge v.magnitude Binary64.infinity with hfinite | hinfinite
  · obtain ⟨c, rest, hcons, hc⟩ := exists_cons_of_isPositional (isPositional_shortest hfinite)
    have hsign : c ≠ '-' ∧ c ≠ '+' := by
      constructor <;> rintro rfl <;> exact absurd hc (by decide)
    calc read v.text
        = readUnsigned v.isNegative ((Decimal.shortest v.magnitude).positional false) := by
          rw [text_of_finite hfinite, hcons, read_signed hsign.1 hsign.2]
      _ = .ok (ofMagnitude v.isNegative v.magnitude) := by
          rw [readUnsigned_positional, Decimal.nearest_shortest hfinite]
      _ = .ok v := by rw [ofMagnitude_magnitude]
  · have hmagnitude : v.magnitude = Binary64.infinity := by
      simp only [isNaN, decide_eq_false_iff_not] at h
      omega
    calc read v.text
        = readUnsigned v.isNegative "inf".toList := by
          rw [text_of_infinite hmagnitude]
          exact read_signed (by decide) (by decide)
      _ = .ok (ofMagnitude v.isNegative v.magnitude) := by
          rw [hmagnitude]
          cases v.isNegative <;> rfl
      _ = .ok v := by rw [ofMagnitude_magnitude]

theorem read_text_of_isNaN (h : v.isNaN = true) : read v.text = .ok nan := by
  rw [text_of_isNaN h]
  rfl

end Reading

/-! ## What a text tells -/

/-- The characters that numbers are told from other texts by. -/
theorem plain_of_isFigure {c : Char} (h : Text.isFigure c = true) :
    c ∉ ['e', 'E', '"', '\'', ' ', '\n'] := by
  intro hmem
  have hnone : ∀ d ∈ ['e', 'E', '"', '\'', ' ', '\n'], (!Text.isFigure d) = true :=
    List.all_eq_true.1 (by decide)
  have hother := hnone c hmem
  rw [h] at hother
  exact Bool.false_ne_true hother

/-- The word for no number is the text of no number. -/
theorem isNaN_of_text_eq {v w : Value} (h : v.text = w.text) (hv : v.isNaN = true) :
    w.isNaN = true := by
  by_contra hw
  have hread : (Except.ok w : Except Fault Value) = .ok nan := by
    rw [← read_text (Bool.eq_false_iff.2 hw), ← h, read_text_of_isNaN hv]
  rw [Except.ok.inj hread] at hw
  exact hw isNaN_nan

/-- The text of a value tells its bits, unless it stands for no number. -/
theorem text_eq_iff {v w : Value} :
    v.text = w.text ↔ v.bits = w.bits ∨ v.isNaN = true ∧ w.isNaN = true := by
  constructor
  · intro h
    by_cases hv : v.isNaN = true
    · exact .inr ⟨hv, isNaN_of_text_eq h hv⟩
    · have hw : ¬ w.isNaN = true := fun hw => hv (isNaN_of_text_eq h.symm hw)
      have hread : (Except.ok v : Except Fault Value) = .ok w := by
        rw [← read_text (Bool.eq_false_iff.2 hv), h, read_text (Bool.eq_false_iff.2 hw)]
      exact .inl (congrArg bits (Except.ok.inj hread))
  · rintro (h | ⟨hv, hw⟩)
    · have heq : v = w := by
        cases v
        cases w
        exact congrArg Value.mk h
      rw [heq]
    · rw [text_of_isNaN hv, text_of_isNaN hw]

/-- What the text of a value looks like, and what it tells. -/
structure RoundTrips (v : Value) : Prop where
  /-- A value that stands for no number is written without its sign. -/
  nan : v.isNaN = true → v.text = "NaN".toList
  infinite : v.magnitude = Binary64.infinity →
    v.text = if v.isNegative then "-inf".toList else "inf".toList
  /-- The digits of a finite value are the shortest ones, at most seventeen, of a number that has
  no nearer double. -/
  finite : v.magnitude < Binary64.infinity → ∃ d : Decimal,
    Decimal.IsShortest v.magnitude d ∧ Decimal.digitCount d.digits ≤ Decimal.maxDigits ∧
      Binary64.IsNearest d.value v.magnitude ∧ Decimal.IsPositional (d.positional false) ∧
      v.text = if v.isNegative then '-' :: d.positional false else d.positional false
  /-- There is no exponent in it, and nothing that texts are quoted or parted by. -/
  plain : ∀ c ∈ v.text, c ∉ ['e', 'E', '"', '\'', ' ', '\n']
  /-- It is read back to the bit, as the texts of constants on a command line are read. -/
  read : v.isNaN = false → Value.read v.text = .ok v
  readNaN : v.isNaN = true → ∃ w, Value.read v.text = .ok w ∧ w.isNaN = true
  distinct : ∀ w : Value, v.text = w.text ↔ v.bits = w.bits ∨ v.isNaN = true ∧ w.isNaN = true

/-- Values survive being written and read back. -/
theorem roundTrips_text (v : Value) : RoundTrips v where
  nan := text_of_isNaN
  infinite h := by
    rw [text_of_infinite h]
    cases v.isNegative <;> rfl
  finite h := ⟨_, Decimal.isShortest_shortest h, Decimal.digitCount_shortest_le h,
    isNearest_shortest h, isPositional_shortest h, text_of_finite h⟩
  plain _ hc := plain_of_isFigure (isFigure_of_mem_text hc)
  read := read_text
  readNaN h := ⟨Value.nan, read_text_of_isNaN h, isNaN_nan⟩
  distinct _ := text_eq_iff

end Bytecode.Value
