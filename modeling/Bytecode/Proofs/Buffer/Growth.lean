import Bytecode.Buffer
import Mathlib.Algebra.Group.Nat.Defs
import Mathlib.Data.Nat.Log
import Mathlib.Order.Bounds.Defs

/-!
# Growth of buffers

The capacity of a buffer that has been filled element by element depends on the
number of its elements alone, so there is one buffer for every list.

* `Buffer.capacityFor` — the capacity for so many elements: the least of 8, 16,
  32, … that holds them (`isLeast_capacityFor`), and 0 for none.
* `Buffer.grow_capacityFor`, `Buffer.capacityFor_succ_of_lt` — a full buffer
  grows to the capacity for one element more, another one has it already.
* `Buffer.ofList` — the buffer that has been filled with the elements of a list;
  the operations lead from such buffers to such buffers
  (`push_ofList`, `clone_ofList`, `fst_free`).
* `Buffer.push_ofList_full` — the one buffer that takes no further element.
-/

namespace Bytecode.Buffer

variable {α : Type}

/-! ## The capacity for a number of elements -/

/-- The number of elements beyond which no buffer grows: twice as many do not fit in a
machine word. -/
def sizeLimit : Nat := 0x8000000000000000

theorem lt_bound_of_le_sizeLimit {n : Nat} (h : n ≤ sizeLimit) : n < Size.bound :=
  Nat.lt_of_le_of_lt h (by decide)

/-- The capacity of a buffer that has been filled with `n` elements. -/
def capacityFor (n : Nat) : Nat :=
  if n = 0 then 0 else minCapacity * 2 ^ Nat.clog 2 ((n + 7) / 8)

@[simp] theorem capacityFor_zero : capacityFor 0 = 0 := rfl

/-- Every capacity but 0 is a doubling of eight. -/
theorem exists_capacityFor_eq {n : Nat} (h : n ≠ 0) : ∃ k, capacityFor n = 8 * 2 ^ k :=
  ⟨Nat.clog 2 ((n + 7) / 8), by rw [capacityFor, if_neg h, minCapacity]⟩

/-- The capacity is adjoint to the doublings of eight: it is within one of them iff the number
of elements is. -/
theorem capacityFor_le_iff {n k : Nat} : capacityFor n ≤ 8 * 2 ^ k ↔ n ≤ 8 * 2 ^ k := by
  by_cases h : n = 0
  · simp [h]
  · have hclog := Nat.clog_le_iff_le_pow (b := 2) (by decide) (x := (n + 7) / 8) (y := k)
    rw [capacityFor, if_neg h, minCapacity, Nat.mul_le_mul_left_iff (by decide),
      Nat.pow_le_pow_iff_right (by decide), hclog]
    omega

/-- There is room for the elements that a capacity is for. -/
theorem le_capacityFor (n : Nat) : n ≤ capacityFor n := by
  by_cases h : n = 0
  · exact h ▸ Nat.zero_le _
  · obtain ⟨k, hk⟩ := exists_capacityFor_eq h
    rw [hk]
    exact capacityFor_le_iff.1 (Nat.le_of_eq hk)

theorem capacityFor_mono {m n : Nat} (h : m ≤ n) : capacityFor m ≤ capacityFor n := by
  by_cases hn : n = 0
  · rw [hn] at h
    rw [Nat.le_zero.1 h]
    exact Nat.zero_le _
  · obtain ⟨k, hk⟩ := exists_capacityFor_eq hn
    rw [hk]
    exact capacityFor_le_iff.2 (le_trans h (capacityFor_le_iff.1 (Nat.le_of_eq hk)))

/-- The capacity for some elements is the least doubling of eight that holds them. -/
theorem isLeast_capacityFor {n : Nat} (h : n ≠ 0) :
    IsLeast {c | (∃ k, c = 8 * 2 ^ k) ∧ n ≤ c} (capacityFor n) := by
  refine ⟨⟨exists_capacityFor_eq h, le_capacityFor n⟩, ?_⟩
  rintro c ⟨⟨k, rfl⟩, hn⟩
  exact capacityFor_le_iff.2 hn

theorem capacityFor_le_sizeLimit {n : Nat} (h : n ≤ sizeLimit) : capacityFor n ≤ sizeLimit :=
  capacityFor_le_iff (k := 60).2 h

theorem capacityFor_sizeLimit : capacityFor sizeLimit = sizeLimit :=
  Nat.le_antisymm (capacityFor_le_sizeLimit (Nat.le_refl _)) (le_capacityFor _)

/-! ## Growing by one element -/

/-- A buffer that is not full has the capacity for one element more. -/
theorem capacityFor_succ_of_lt {n : Nat} (h : n < capacityFor n) :
    capacityFor (n + 1) = capacityFor n := by
  have hn : n ≠ 0 := by
    rintro rfl
    exact absurd h (Nat.lt_irrefl 0)
  refine Nat.le_antisymm ?_ (capacityFor_mono (Nat.le_succ n))
  obtain ⟨k, hk⟩ := exists_capacityFor_eq hn
  rw [hk] at h ⊢
  exact capacityFor_le_iff.2 h

/-- One element more changes the capacity iff the buffer is full. -/
theorem capacityFor_succ_eq_iff {n : Nat} :
    capacityFor (n + 1) = capacityFor n ↔ n ≠ capacityFor n := by
  constructor
  · intro h hfull
    have := le_capacityFor (n + 1)
    omega
  · intro h
    exact capacityFor_succ_of_lt (Nat.lt_of_le_of_ne (le_capacityFor n) h)

/-- Behind a full buffer the capacity doubles. -/
theorem capacityFor_succ_of_full {n : Nat} (h : n = capacityFor n) (hn : n ≠ 0) :
    capacityFor (n + 1) = n * 2 := by
  obtain ⟨k, hk⟩ := exists_capacityFor_eq hn
  rw [hk] at h
  have htwice : n * 2 = 8 * 2 ^ (k + 1) := by
    rw [h, Nat.pow_succ, Nat.mul_assoc]
  refine Nat.le_antisymm ?_ ?_
  · rw [htwice]
    refine capacityFor_le_iff.2 ?_
    omega
  · -- one element more needs a doubling above the present one
    obtain ⟨j, hj⟩ := exists_capacityFor_eq (Nat.succ_ne_zero n)
    have hlt : 8 * 2 ^ k < 8 * 2 ^ j := by
      have hle := le_capacityFor (n + 1)
      rw [hj] at hle
      omega
    have hkj : k + 1 ≤ j :=
      (Nat.pow_lt_pow_iff_right (by decide)).1 (Nat.lt_of_mul_lt_mul_left hlt)
    rw [hj, htwice]
    exact Nat.mul_le_mul_left 8 (Nat.pow_le_pow_right (by decide) hkj)

/-- A full buffer grows to the capacity for one element more. -/
theorem grow_capacityFor {n : Nat} (hfull : n = capacityFor n) (hn : n < sizeLimit) :
    grow (capacityFor n) = .ok (capacityFor (n + 1)) := by
  by_cases h0 : n = 0
  · subst h0
    rfl
  · have h8 : ¬ n < minCapacity := by
      obtain ⟨k, hk⟩ := exists_capacityFor_eq h0
      have := Nat.two_pow_pos k
      unfold minCapacity
      omega
    rw [← hfull, capacityFor_succ_of_full hfull h0, grow, if_neg h8]
    refine Size.multiply_eq_ok_iff.2 ⟨?_, rfl⟩
    unfold sizeLimit at hn
    unfold Size.bound
    omega

theorem grow_sizeLimit : grow sizeLimit = .error .multiply := by decide

/-! ## The buffer of a list -/

theorem length_concat_le {l : List α} {a : α} {n : Nat} (h : l.length < n) :
    (l ++ [a]).length ≤ n := by
  rw [List.length_append, List.length_singleton]
  exact h

/-- The buffer that has been filled with the elements of a list. -/
def ofList (l : List α) : Buffer α := ⟨l.toArray, capacityFor l.length⟩

@[simp] theorem toList_ofList (l : List α) : (ofList l).toList = l := rfl

@[simp] theorem size_ofList (l : List α) : (ofList l).size = l.length := rfl

@[simp] theorem capacity_ofList (l : List α) : (ofList l).capacity = capacityFor l.length := rfl

@[simp] theorem get?_ofList (l : List α) (i : Nat) : (ofList l).get? i = l[i]? := by
  rw [get?_eq, toList_ofList]

theorem ofList_append_singleton (l : List α) (a : α) :
    ofList (l ++ [a]) = ⟨(ofList l).items.push a, capacityFor (l.length + 1)⟩ := by
  simp [ofList]

variable [Element α]

/-- What happens when an element is added to `n` others. -/
def growth (α : Type) [Element α] (n : Nat) : List Event :=
  if n = capacityFor n then [resized α n (capacityFor (n + 1))] else []

/-- Below the limit, an element goes to the end of the list. -/
theorem push_ofList {l : List α} (a : α) (h : l.length < sizeLimit) :
    (ofList l).push a = .done (ofList (l ++ [a])) l.length (growth α l.length) := by
  rw [ofList_append_singleton]
  by_cases hfull : l.length = capacityFor l.length
  · rw [push_of_grow (b := ofList l) a hfull (grow_capacityFor hfull h), growth, if_pos hfull,
      size_ofList, capacity_ofList, ← hfull]
  · have hlt := Nat.lt_of_le_of_ne (le_capacityFor _) hfull
    rw [push_of_room (b := ofList l) a hfull, growth, if_neg hfull, capacityFor_succ_of_lt hlt,
      size_ofList, capacity_ofList]

/-- A buffer at the limit takes no element, and stays as it is. -/
theorem push_ofList_full {l : List α} (a : α) (h : l.length = sizeLimit) :
    (ofList l).push a = .stop (ofList l) .multiply [] := by
  have hfull : (ofList l).size = (ofList l).capacity := by
    rw [size_ofList, capacity_ofList, h, capacityFor_sizeLimit]
  refine push_of_stuck a hfull ?_
  rw [capacity_ofList, h, capacityFor_sizeLimit, grow_sizeLimit]

/-- Elements are added one after the other as long as there is room. -/
theorem state_pushAll_ofList {l : List α} (items : List α) (h : l.length ≤ sizeLimit) :
    ((ofList l).pushAll items).state = ofList ((l ++ items).take sizeLimit) := by
  induction items generalizing l with
  | nil =>
    rw [List.append_nil, List.take_of_length_le h]
    rfl
  | cons a rest ih =>
    rw [pushAll]
    rcases Nat.lt_or_eq_of_le h with hroom | hfull
    · rw [push_ofList a hroom, Outcome.andThen_done]
      show ((ofList (l ++ [a])).pushAll rest).state = _
      rw [ih (length_concat_le hroom), List.append_assoc]
      rfl
    · -- the first element is turned away, and with it the others
      rw [push_ofList_full a hfull, ← hfull, List.take_left]
      rfl

/-- A copy of the buffer of a list is the buffer of that list. -/
theorem clone_ofList (l : List α) :
    (ofList l).clone = (ofList l, [resized α 0 (capacityFor l.length)]) := by
  have hsame : resize l.toArray 0 (capacityFor l.length) = l.toArray := by
    by_cases h : l.length = 0
    · rw [List.eq_nil_of_length_eq_zero h]
      rfl
    · have := le_capacityFor l.length
      exact resize_of_le (by omega) (Nat.zero_le _)
  rw [clone, capacity_ofList, ofList, hsame]

end Bytecode.Buffer
