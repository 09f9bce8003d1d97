import Bytecode.Proofs.Buffer.Limit
import Mathlib.Data.List.TakeDrop

/-!
# What is left when storage changes

The number of elements that storage is meant for is what a caller says, and not what
the storage holds.  Elements go only where there is to be less storage than the caller
says there was: a caller who says too little gets all of them back, even if there is
no room for them.  A buffer never says too little.

* `Buffer.toList_resize_eq_take_iff` — when what is left is what the new storage is
  meant for.
* `Buffer.toList_resize_of_le_max` — so it is if one of the numbers covers the elements.
* `Buffer.toList_resizeAll` — storage that changes again and again keeps what the least
  of it is meant for.
* `Buffer.CoveredStorage` — the operations of a buffer change its storage by numbers
  that cover its elements.
* `Buffer.keepsOverlap_resize` — all of this, for every reachable buffer.
-/

namespace Bytecode.Buffer

variable {α : Type}

/-! ## One change -/

/-- What is left is what the new storage is meant for, unless there are more elements and the
storage is not said to shrink. -/
theorem toList_resize_eq_take_iff {items : Array α} {old new : Nat} :
    (resize items old new).toList = items.toList.take new ↔
      new = 0 ∨ new < old ∨ items.size ≤ new := by
  by_cases hzero : new = 0
  · rw [hzero]
    exact iff_of_true (toList_resize_zero items old) (Or.inl rfl)
  by_cases hshrink : new < old
  · exact iff_of_true (toList_resize_of_lt hshrink) (Or.inr (Or.inl hshrink))
  · -- all elements are left, so they must have been few enough
    rw [resize_of_le (Nat.pos_of_ne_zero hzero) (Nat.le_of_not_lt hshrink),
      List.take_self_eq_iff, Array.length_toList]
    simp [hzero, hshrink]

/-- Nothing else is left, and nothing is lost, if one of the numbers covers the elements. -/
theorem toList_resize_of_le_max {items : Array α} {old new : Nat}
    (h : items.size ≤ max old new) :
    (resize items old new).toList = items.toList.take new :=
  toList_resize_eq_take_iff.2 (by omega)

/-! ## One change after the other -/

/-- Changes storage again and again, each time from the number of elements that it was changed to
before. -/
def resizeAll (items : Array α) (old : Nat) : List Nat → Array α
  | [] => items
  | new :: rest => resizeAll (resize items old new) new rest

theorem foldl_min_le (counts : List Nat) (n : Nat) : counts.foldl min n ≤ n := by
  rw [List.foldl_min]
  exact Nat.min_le_left _ _

/-- What is left in the end is what the least storage was meant for. -/
theorem toList_resizeAll {items : Array α} {old : Nat} (h : items.size ≤ old)
    (counts : List Nat) :
    (resizeAll items old counts).toList = items.toList.take (counts.foldl min items.size) := by
  induction counts generalizing items old with
  | nil => exact (List.take_length (l := items.toList)).symm
  | cons new rest ih =>
    have hfirst : (resize items old new).toList = items.toList.take new :=
      toList_resize_of_le_max (Nat.le_trans h (Nat.le_max_left _ _))
    have hsize : (resize items old new).size = min items.size new := by
      rw [← Array.length_toList, hfirst, List.length_take, Array.length_toList, Nat.min_comm]
    -- what the first change leaves is covered by the number that the next one starts from
    have hrest := ih (hsize ▸ Nat.min_le_right items.size new)
    have hle : rest.foldl min (min items.size new) ≤ new :=
      Nat.le_trans (foldl_min_le rest _) (Nat.min_le_right _ _)
    rw [resizeAll, hrest, hfirst, hsize, List.take_take, Nat.min_eq_left hle, List.foldl_cons]

/-! ## The changes made by a buffer -/

variable [Element α]

/-- On the way of an operation with these events, the storage of a buffer is changed once, by
numbers that cover its elements, and these elements are left. -/
def ResizesOnce (b : Buffer α) (events : List Event) (left : List α) : Prop :=
  ∃ old new, events = [resized α old new] ∧ b.size ≤ max old new ∧
    left = (resize b.items old new).toList

/-- Every change of the storage of a buffer is by numbers that cover its elements. -/
structure CoveredStorage (b : Buffer α) : Prop where
  /-- Adding an element changes storage before the element is added, if it does so at all. -/
  push : ∀ a, (b.push a).events ≠ [] → ∃ left, ResizesOnce b (b.push a).events left ∧
    (b.push a).state.toList = left ++ [a]
  clone : ResizesOnce b b.clone.2 b.clone.1.toList
  free : ResizesOnce b b.free.2 b.free.1.toList

theorem coveredStorage_ofList {l : List α} (h : l.length ≤ sizeLimit) :
    CoveredStorage (ofList l) := by
  have hcapacity : (ofList l).size ≤ (ofList l).capacity := le_capacityFor l.length
  constructor
  case push =>
    intro a hevents
    rcases Nat.lt_or_eq_of_le h with hroom | hlimit
    · rw [push_ofList a hroom] at hevents ⊢
      by_cases hfull : l.length = capacityFor l.length
      · have hlarger : l.length ≤ capacityFor (l.length + 1) :=
          Nat.le_of_succ_le (le_capacityFor (l.length + 1))
        have hcover : (ofList l).size ≤ max l.length (capacityFor (l.length + 1)) :=
          Nat.le_max_left _ _
        refine ⟨l, ⟨_, _, if_pos hfull, hcover, ?_⟩, rfl⟩
        rw [toList_resize_of_le_max hcover]
        exact (List.take_of_length_le hlarger).symm
      · exact absurd (if_neg hfull) hevents
    · rw [push_ofList_full a hlimit] at hevents
      exact absurd rfl hevents
  case clone => exact ⟨_, _, rfl, Nat.le_trans hcapacity (Nat.le_max_right _ _), rfl⟩
  case free => exact ⟨_, _, rfl, Nat.le_trans hcapacity (Nat.le_max_left _ _), rfl⟩

/-! ## The overlap -/

/-- **Storage keeps the overlap** of what it holds and what it is to be meant for, iff it is given
up, or said to shrink, or large enough; otherwise all elements are left.  So nothing is lost and
nothing left over where one of the numbers covers the elements, as in all changes that a reachable
buffer makes, and where each change starts from the number that the last one led to. -/
theorem keepsOverlap_resize :
    (∀ (items : List α) (old new : Nat),
      ((resize items.toArray old new).toList = items.take (min items.length new) ↔
        new = 0 ∨ new < old ∨ items.length ≤ new) ∧
      (0 < new → old ≤ new → new < items.length →
        (resize items.toArray old new).toList = items) ∧
      (items.length ≤ max old new →
        (resize items.toArray old new).toList = items.take (min items.length new))) ∧
    (∀ b : Buffer α, b.Reachable → b.CoveredStorage) ∧
    ∀ (items : List α) (old : Nat) (counts : List Nat), items.length ≤ old →
      (resizeAll items.toArray old counts).toList =
        items.take (counts.foldl min items.length) := by
  refine ⟨fun items old new => ?_, fun b hb => ?_, fun items old counts h => ?_⟩
  · have htake : items.take (min items.length new) = items.take new := by
      rw [Nat.min_comm, ← List.take_eq_take_min]
    rw [htake]
    refine ⟨toList_resize_eq_take_iff, fun hpos hle _ => ?_, toList_resize_of_le_max⟩
    rw [resize_of_le hpos hle]
  · obtain ⟨l, rfl, hl⟩ := hb.exists_list
    exact coveredStorage_ofList hl
  · exact toList_resizeAll h counts

/-- Storage that shrinks, that is said to grow although it shrinks, and that changes four times; and
the ninth element of a buffer, before which its storage is changed. -/
theorem keepsOverlap_resize_of_bytes :
    (resize #[1, 2, 3, 4, 5] 5 3).toList = ([1, 2, 3] : List UInt8) ∧
      (resize #[1, 2, 3, 4, 5] 2 3).toList = ([1, 2, 3, 4, 5] : List UInt8) ∧
      (resizeAll #[1, 2, 3, 4, 5] 8 [4, 16, 2, 64]).toList = ([1, 2] : List UInt8) ∧
      ∃ left, ((ofList (List.replicate 8 (7 : UInt8))).push 9).state.toList = left ++ [9] ∧
        ResizesOnce (ofList (List.replicate 8 (7 : UInt8)))
          ((ofList (List.replicate 8 (7 : UInt8))).push 9).events left := by
  obtain ⟨hone, hcovered, hall⟩ := keepsOverlap_resize (α := UInt8)
  obtain ⟨-, -, hshrink⟩ := hone [1, 2, 3, 4, 5] 5 3
  obtain ⟨-, hclaimed, -⟩ := hone [1, 2, 3, 4, 5] 2 3
  have hreachable : (ofList (List.replicate 8 (7 : UInt8))).Reachable :=
    reachable_ofList (by decide)
  obtain ⟨left, honce, hleft⟩ := (hcovered _ hreachable).push 9 (by decide)
  exact ⟨hshrink (by decide), hclaimed (by decide) (by decide) (by decide),
    hall [1, 2, 3, 4, 5] 8 [4, 16, 2, 64] (by decide), left, hleft, honce⟩

end Bytecode.Buffer
