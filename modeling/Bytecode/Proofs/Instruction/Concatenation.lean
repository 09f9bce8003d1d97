import Bytecode.Proofs.Instruction.Tiling

/-!
# Entries of code that goes on

What is found in some bytes does not depend on those that are written behind
them, with one exception: an operand that is cut off by the end of the bytes is
found when they go on.

* `Entry.shift`, `Instruction.entriesFrom_shift` — entries that begin further on.
* `Instruction.endsCutOff` — whether the last entry lacks its operand.
* `Instruction.entries_append` — the entries of bytes that do not end so, followed
  by others.
* `Instruction.entries_append_cons` — the entries of bytes that end so: the byte
  behind them is the operand.
* `Instruction.settled` — the entries that no further byte changes.
* `Instruction.mem_entries_of_mem_entries_take` — the entries of the beginning of
  some code.
-/

namespace Bytecode

/-- The entry with so many bytes more before it. -/
def Entry.shift (bytes : Nat) (e : Entry) : Entry := ⟨bytes + e.offset, e.result⟩

namespace Instruction

theorem entriesFrom_shift (k offset : Nat) (bytes : List UInt8) :
    entriesFrom (k + offset) bytes = (entriesFrom offset bytes).map (.shift k) := by
  fun_induction entriesFrom offset bytes with
  | case1 offset => simp
  | case2 offset b rest result ih =>
    rw [entriesFrom_cons, Nat.add_assoc, ih, List.map_cons]
    rfl

theorem entriesFrom_eq_map_shift (k : Nat) (bytes : List UInt8) :
    entriesFrom k bytes = (entries bytes).map (.shift k) :=
  entriesFrom_shift k 0 bytes

/-! ## The end of the entries -/

/-- Whether the last entry is an instruction without its operand. -/
def endsCutOff (es : List Entry) : Bool := es.getLast?.any fun e => e.result.isCutOff

theorem endsCutOff_cons {e : Entry} (he : e.result.isCutOff = false) (es : List Entry) :
    endsCutOff (e :: es) = endsCutOff es := by
  cases es with
  | nil => simp [endsCutOff, he]
  | cons e' es => rw [endsCutOff, endsCutOff, List.getLast?_cons_cons]

/-- The entries that stay when the code goes on: all but an instruction without its operand. -/
def settled (es : List Entry) : List Entry := if endsCutOff es then es.dropLast else es

/-! ## One step of the walk, in code that goes on -/

/-- What is found is found again when the code goes on, unless its operand is cut off. -/
theorem decode_append {b : UInt8} {rest : List UInt8}
    (h : (decode (b :: rest)).isCutOff = false) (more : List UInt8) :
    decode (b :: rest ++ more) = decode (b :: rest) := by
  rcases decode_cons_cases b rest with ⟨i, tail, hbytes, hd⟩ | hd | ⟨-, op, -, hd⟩
  · rw [hd, hbytes, List.append_assoc]
    exact decode_encode i _
  · -- the byte alone decides that it is no opcode
    have hop : Opcode.ofByte? b = none := by
      cases hop : Opcode.ofByte? b with
      | none => rfl
      | some op =>
        simp only [decode, hop] at hd
        cases op <;> cases rest <;> cases hd
    rw [hd, List.cons_append]
    simp only [decode, hop]
  · rw [hd] at h
    cases h

/-- An operand that was cut off is the first byte with which the code goes on. -/
theorem decode_of_isCutOff {b : UInt8} {rest : List UInt8}
    (h : (decode (b :: rest)).isCutOff = true) :
    rest = [] ∧ ∀ operand more, decode (b :: operand :: more) = .ok (.constant operand) := by
  refine ⟨eq_nil_of_isCutOff h, ?_⟩
  intro operand more
  rw [eq_nil_of_isCutOff h] at h
  cases hop : Opcode.ofByte? b with
  | none =>
    simp only [decode, hop] at h
    cases h
  | some op =>
    cases op with
    | constant => simp only [decode, hop]
    | ret =>
      simp only [decode, hop] at h
      cases h

theorem entriesFrom_cons_append (start : Nat) {b : UInt8} {rest : List UInt8}
    (h : (decode (b :: rest)).isCutOff = false) (more : List UInt8) :
    entriesFrom start (b :: rest ++ more) =
      ⟨start, decode (b :: rest)⟩ :: entriesFrom (start + (decode (b :: rest)).width)
        ((b :: rest).drop (decode (b :: rest)).width ++ more) := by
  rw [List.cons_append, entriesFrom_cons, ← List.cons_append, decode_append h,
    List.drop_append_of_le_length (width_decode_le b rest)]

/-! ## The whole walk, in code that goes on -/

/-- Entries that do not end without an operand are followed by those of the further bytes. -/
theorem entriesFrom_append {start : Nat} {A : List UInt8}
    (h : endsCutOff (entriesFrom start A) = false) (B : List UInt8) :
    entriesFrom start (A ++ B) = entriesFrom start A ++ entriesFrom (start + A.length) B := by
  fun_induction entriesFrom start A with
  | case1 start => rfl
  | case2 start b rest result ih =>
    have hw : result.width ≤ (b :: rest).length := width_decode_le b rest
    by_cases hcut : result.isCutOff = true
    · -- then it would be the last entry
      have hdrop : (b :: rest).drop result.width = [] := by
        rw [eq_nil_of_isCutOff hcut]
        exact List.drop_eq_nil_of_le result.width_pos
      rw [hdrop, entriesFrom_nil] at h
      exact absurd hcut (by simpa [endsCutOff] using h)
    · have hcut : result.isCutOff = false := by simpa using hcut
      rw [endsCutOff_cons hcut] at h
      rw [entriesFrom_cons_append start hcut, ih h, List.cons_append, List.length_drop,
        Nat.add_assoc, Nat.add_sub_cancel' hw]

/-- Entries that end without an operand find it in the byte behind them. -/
theorem entriesFrom_append_cons {start : Nat} {A : List UInt8}
    (h : endsCutOff (entriesFrom start A) = true) (b : UInt8) (B : List UInt8) :
    entriesFrom start (A ++ b :: B) = (entriesFrom start A).dropLast ++
      ⟨start + A.length - 1, .ok (.constant b)⟩ :: entriesFrom (start + A.length + 1) B := by
  fun_induction entriesFrom start A with
  | case1 start => cases h
  | case2 start a rest result ih =>
    have hw : result.width ≤ (a :: rest).length := width_decode_le a rest
    by_cases hcut : result.isCutOff = true
    · -- the operand is that of the only entry
      obtain ⟨rfl, hfound⟩ := decode_of_isCutOff hcut
      have hdrop : [a].drop result.width = [] := List.drop_eq_nil_of_le result.width_pos
      rw [hdrop, entriesFrom_nil, List.singleton_append, entriesFrom_cons, hfound]
      rfl
    · have hcut : result.isCutOff = false := by simpa using hcut
      rw [endsCutOff_cons hcut] at h
      have hne : entriesFrom (start + result.width) ((a :: rest).drop result.width) ≠ [] := by
        intro hnil
        rw [hnil] at h
        cases h
      rw [entriesFrom_cons_append start hcut, ih h, List.dropLast_cons_of_ne_nil hne,
        List.cons_append, List.length_drop, Nat.add_assoc, Nat.add_sub_cancel' hw]

theorem entries_append {A : List UInt8} (h : endsCutOff (entries A) = false) (B : List UInt8) :
    entries (A ++ B) = entries A ++ (entries B).map (.shift A.length) := by
  have happend := entriesFrom_append h B
  rw [Nat.zero_add, entriesFrom_eq_map_shift A.length] at happend
  exact happend

theorem entries_append_cons {A : List UInt8} (h : endsCutOff (entries A) = true) (b : UInt8)
    (B : List UInt8) :
    entries (A ++ b :: B) = (entries A).dropLast ++
      ⟨A.length - 1, .ok (.constant b)⟩ :: (entries B).map (.shift (A.length + 1)) := by
  have happend := entriesFrom_append_cons h b B
  rw [Nat.zero_add, entriesFrom_eq_map_shift (A.length + 1)] at happend
  exact happend

/-- The settled entries of some code are those that it begins with, however it goes on. -/
theorem settled_prefix (A B : List UInt8) : settled (entries A) <+: entries (A ++ B) := by
  unfold settled
  split
  · rename_i hcut
    cases B with
    | nil =>
      rw [List.append_nil]
      exact List.dropLast_prefix _
    | cons b B =>
      rw [entries_append_cons hcut]
      exact List.prefix_append _ _
  · rename_i hcut
    rw [entries_append (Bool.eq_false_iff.2 hcut)]
    exact List.prefix_append _ _

/-! ## The walk over the beginning of some code -/

/-- An entry is settled, or it is an instruction without its operand. -/
theorem mem_settled_or_isCutOff {es : List Entry} {e : Entry} (he : e ∈ es) :
    e ∈ settled es ∨ e.result.isCutOff = true := by
  unfold settled
  by_cases hends : endsCutOff es = true
  · rw [if_pos hends]
    rcases List.eq_nil_or_concat es with rfl | ⟨first, last, rfl⟩
    · cases he
    · simp only [List.concat_eq_append, List.dropLast_concat, List.mem_append,
        List.mem_singleton] at he ⊢
      rcases he with he | rfl
      · exact Or.inl he
      · exact Or.inr (by simpa [endsCutOff] using hends)
  · rw [if_neg hends]
    exact Or.inl he

/-- The entries of the beginning of some code are entries of the whole code, but for an instruction
without its operand. -/
theorem mem_entries_of_mem_entries_take {A : List UInt8} {n : Nat} {e : Entry}
    (he : e ∈ entries (A.take n)) : e ∈ entries A ∨ e.result.isCutOff = true := by
  have hstart : settled (entries (A.take n)) <+: entries A := by
    have := settled_prefix (A.take n) (A.drop n)
    rwa [List.take_append_drop] at this
  rcases mem_settled_or_isCutOff he with he | hcut
  · exact Or.inl (hstart.subset he)
  · exact Or.inr hcut

end Instruction

end Bytecode
