import Bytecode.Proofs.Buffer.Growth
import Bytecode.Proofs.Session.Refinement
import Bytecode.Session.Buffer

/-!
# Buffers and pools are lists

A buffer is a sequence to which elements are added at the end, and so is a pool.
What can be seen of such a sequence is told by the list of the elements added
since it was last freed; its capacity is told by their number alone.

* `Sequence` — the operations of such a sequence; those of a buffer of elements of
  any type (`Sequence.ofBuffer`) and of a pool (`Sequence.ofPool`).
* `Sequence.FilledBy` — every list fills one sequence, and the operations lead
  from such sequences to such sequences.
* `Sequence.Follows` — what can be seen of a sequence with its list.
* `Session.RefinesList` — the sequences of a session follow their lists, at every
  stage.
* `Session.refinesList_sequences` — those of buffers and of pools do.
-/

namespace Bytecode

/-! ## Sequences -/

/-- The operations of a sequence to which elements are added at the end. -/
structure Sequence (σ α : Type) where
  empty : σ
  /-- Adds an element; the reply is its index. -/
  push : σ → α → Outcome Overflow σ Nat
  clone : σ → σ × List Event
  free : σ → σ × List Event
  toList : σ → List α
  get? : σ → Nat → Option α
  size : σ → Nat
  capacity : σ → Nat

namespace Sequence

/-- Buffers of elements of type `α`. -/
def ofBuffer (α : Type) [Element α] : Sequence (Buffer α) α where
  empty := .empty
  push := Buffer.push
  clone := Buffer.clone
  free := Buffer.free
  toList := Buffer.toList
  get? := Buffer.get?
  size := Buffer.size
  capacity := Buffer.capacity

def ofPool : Sequence Pool Value where
  empty := .empty
  push := Pool.write
  clone := Pool.clone
  free := Pool.free
  toList := Pool.toList
  get? := Pool.get?
  size := Pool.size
  capacity := Pool.capacity

variable {σ α : Type} {S : Sequence σ α}

/-- A number of new sequences. -/
def new (S : Sequence σ α) (count : Nat) : List σ := List.replicate count S.empty

/-- What can be seen of a sequence to which the elements of a list have been added. -/
structure Follows (S : Sequence σ α) (s : σ) (l : List α) : Prop where
  toList : S.toList s = l
  size : S.size s = l.length
  get? : ∀ i, S.get? s i = l[i]?
  get?_eq_none : ∀ i, S.get? s i = none ↔ S.size s ≤ i
  /-- The index of an element is the number of those before it, and it comes last. -/
  push : ∀ a, l.length < Buffer.sizeLimit →
    (S.push s a).reply = .ok l.length ∧ S.toList (S.push s a).state = l ++ [a]
  size_le : S.size s ≤ S.capacity s
  capacity_of_empty : S.size s = 0 → S.capacity s = 0
  /-- The capacity is the least of 8, 16, 32, … that the elements need. -/
  capacity_of_elements : S.size s ≠ 0 →
    IsLeast {n | (∃ k, n = 8 * 2 ^ k) ∧ S.size s ≤ n} (S.capacity s)
  capacity_push : ∀ a, S.capacity s ≤ S.capacity (S.push s a).state
  /-- A copy cannot be told from its source. -/
  clone : (S.clone s).1 = s
  /-- A freed sequence cannot be told from a new one. -/
  free : (S.free s).1 = S.empty
  free_free : (S.free (S.free s).1).1 = (S.free s).1

/-- The lists fill the sequences `of l`, and the operations lead from one of them to another. -/
structure FilledBy (S : Sequence σ α) (of : List α → σ) : Prop where
  empty : of [] = S.empty
  push : ∀ l a, l.length < Buffer.sizeLimit →
    (S.push (of l) a).reply = .ok l.length ∧ (S.push (of l) a).state = of (l ++ [a])
  push_full : ∀ l a, l.length = Buffer.sizeLimit → (S.push (of l) a).state = of l
  clone : ∀ l, (S.clone (of l)).1 = of l
  free : ∀ s, (S.free s).1 = S.empty
  toList : ∀ l, S.toList (of l) = l
  get? : ∀ l i, S.get? (of l) i = l[i]?
  size : ∀ l, S.size (of l) = l.length
  capacity : ∀ l, S.capacity (of l) = Buffer.capacityFor l.length

theorem filledBy_ofBuffer (α : Type) [Element α] : FilledBy (ofBuffer α) Buffer.ofList where
  empty := rfl
  push l a h := by
    show ((Buffer.ofList l).push a).reply = _ ∧ ((Buffer.ofList l).push a).state = _
    rw [Buffer.push_ofList a h]
    exact ⟨rfl, rfl⟩
  push_full l a h := by
    show ((Buffer.ofList l).push a).state = _
    rw [Buffer.push_ofList_full a h]
    rfl
  clone l := congrArg Prod.fst (Buffer.clone_ofList l)
  free b := Buffer.fst_free b
  toList l := Buffer.toList_ofList l
  get? l i := Buffer.get?_ofList l i
  size l := Buffer.size_ofList l
  capacity l := Buffer.capacity_ofList l

/-- A pool is filled as the buffer of its values is. -/
theorem filledBy_ofPool : FilledBy ofPool fun l => ⟨.ofList l⟩ where
  empty := rfl
  push l v h := by
    obtain ⟨hreply, hstate⟩ := (filledBy_ofBuffer Value).push l v h
    exact ⟨hreply, congrArg Pool.mk hstate⟩
  push_full l v h := congrArg Pool.mk ((filledBy_ofBuffer Value).push_full l v h)
  clone l := congrArg Pool.mk ((filledBy_ofBuffer Value).clone l)
  free p := congrArg Pool.mk ((filledBy_ofBuffer Value).free p.values)
  toList l := (filledBy_ofBuffer Value).toList l
  get? l i := (filledBy_ofBuffer Value).get? l i
  size l := (filledBy_ofBuffer Value).size l
  capacity l := (filledBy_ofBuffer Value).capacity l

variable {of : List α → σ}

theorem FilledBy.follows (h : S.FilledBy of) {l : List α} (hl : l.length ≤ Buffer.sizeLimit) :
    S.Follows (of l) l where
  toList := h.toList l
  size := h.size l
  get? := h.get? l
  get?_eq_none i := by rw [h.get?, h.size, List.getElem?_eq_none_iff]
  push a hlt := by
    obtain ⟨hreply, hstate⟩ := h.push l a hlt
    exact ⟨hreply, by rw [hstate, h.toList]⟩
  size_le := by
    rw [h.size, h.capacity]
    exact Buffer.le_capacityFor _
  capacity_of_empty hnone := by
    rw [h.size] at hnone
    rw [h.capacity, hnone, Buffer.capacityFor_zero]
  capacity_of_elements hsome := by
    rw [h.size] at hsome ⊢
    rw [h.capacity]
    exact Buffer.isLeast_capacityFor hsome
  capacity_push a := by
    rcases Nat.lt_or_eq_of_le hl with hroom | hfull
    · rw [(h.push l a hroom).2, h.capacity, h.capacity, List.length_append]
      exact Buffer.capacityFor_mono (Nat.le_add_right _ _)
    · rw [h.push_full l a hfull]
  clone := h.clone l
  free := h.free _
  free_free := by rw [h.free, h.free]

end Sequence

/-! ## Sessions on sequences -/

namespace Session

variable {σ α γ ρ : Type}

/-- The list of a sequence starts with no element, and every command adds some. No element is added
behind the last one that fits. -/
def appending (added : γ → List α) : Rule γ (List α) where
  start := []
  act command l := (l ++ added command).take Buffer.sizeLimit

/-- The sequences of every session that starts with new ones follow their lists. -/
structure RefinesList (S : Sequence σ α) (k : Kind σ γ ρ) (added : γ → List α) : Prop where
  /-- At every stage each sequence follows its list. -/
  follows : ∀ count steps, Option.Rel (List.Forall₂ S.Follows)
    ((play k false (S.new count) steps).map Prod.snd)
    ((appending added).run (List.replicate count []) steps)
  /-- Sequences of one size have one capacity, be they copies or not. -/
  capacity_eq : ∀ count steps records objects,
    play k false (S.new count) steps = some (records, objects) →
    ∀ s ∈ objects, ∀ s' ∈ objects, S.size s = S.size s' → S.capacity s = S.capacity s'
  /-- The capacity does not decrease until the sequence is freed. -/
  capacity_le : ∀ count steps records objects,
    play k false (S.new count) steps = some (records, objects) →
    ∀ more records' objects', play k false objects more = some (records', objects') →
    ∀ number s, objects[number]? = some s → (number, .free) ∉ more →
      ∃ s', objects'[number]? = some s' ∧ S.capacity s ≤ S.capacity s'
  /-- A session goes on behind a freed sequence as it does behind a new one. -/
  freed : ∀ count steps records objects,
    play k false (S.new count) steps = some (records, objects) →
    ∀ number s, objects[number]? = some s →
      step k false number .free objects = some (⟨.ok .freed, S.empty, []⟩,
        objects.set number S.empty)

/-- The commands of a kind of sequences lead from filled sequences to filled sequences. -/
structure Fills (S : Sequence σ α) (of : List α → σ) (k : Kind σ γ ρ) (added : γ → List α) :
    Prop where
  filled : S.FilledBy of
  act : ∀ command l, l.length ≤ Buffer.sizeLimit →
    (k.act command (of l)).state = of ((l ++ added command).take Buffer.sizeLimit)
  clone : k.clone = S.clone
  free : k.free = S.free

variable {S : Sequence σ α} {of : List α → σ} {k : Kind σ γ ρ} {added : γ → List α}

/-- A sequence is the one that its list fills. -/
def Filled (of : List α → σ) (s : σ) (l : List α) : Prop := s = of l ∧ l.length ≤ Buffer.sizeLimit

theorem Fills.refines (h : Fills S of k added) : Refines k (appending added) (Filled of) where
  act command s l hs := by
    obtain ⟨rfl, hl⟩ := hs
    exact ⟨h.act command l hl, List.length_take_le _ _⟩
  clone s l hs := by
    obtain ⟨rfl, hl⟩ := hs
    rw [h.clone]
    exact ⟨h.filled.clone l, hl⟩
  free s l _ := by
    rw [h.free, h.filled.free, ← h.filled.empty]
    exact ⟨rfl, Nat.zero_le _⟩

theorem Fills.filled_new (h : Fills S of k added) (count : Nat) :
    List.Forall₂ (Filled of) (S.new count) (List.replicate count []) := by
  rw [Sequence.new, ← h.filled.empty]
  induction count with
  | zero => exact .nil
  | succ count ih => exact .cons ⟨rfl, Nat.zero_le _⟩ ih

/-- The sequences of a session are those that their lists fill. -/
theorem Fills.exists_lists (h : Fills S of k added) {objects objects' : List σ}
    {lists : List (List α)} (hfilled : List.Forall₂ (Filled of) objects lists)
    {steps : List (Nat × Command γ)} {records : List (Record σ ρ)}
    (hplay : play k false objects steps = some (records, objects')) :
    ∃ lists', (appending added).run lists steps = some lists' ∧
      List.Forall₂ (Filled of) objects' lists' := by
  have hrel := h.refines.play hfilled steps
  rw [hplay, Option.map_some] at hrel
  generalize (appending added).run lists steps = lists' at hrel ⊢
  cases hrel with
  | some hall => exact ⟨_, rfl, hall⟩

theorem Fills.capacity_le (h : Fills S of k added) {objects objects' : List σ}
    {lists : List (List α)} (hfilled : List.Forall₂ (Filled of) objects lists)
    {more : List (Nat × Command γ)} {records : List (Record σ ρ)}
    (hplay : play k false objects more = some (records, objects')) {number : Nat} {s : σ}
    (hobject : objects[number]? = some s) (hfree : (number, .free) ∉ more) :
    ∃ s', objects'[number]? = some s' ∧ S.capacity s ≤ S.capacity s' := by
  obtain ⟨l, hlist, rfl, hl⟩ := exists_getElem?_eq hfilled hobject
  obtain ⟨lists', hrun, hfilled'⟩ := h.exists_lists hfilled hplay
  -- the list only grows at its end
  have hkeeps : ∀ command l', (l <+: l' ∧ l'.length ≤ Buffer.sizeLimit) →
      (l <+: (appending added).act command l' ∧
        ((appending added).act command l').length ≤ Buffer.sizeLimit) := by
    rintro command l' ⟨hbegins, hle⟩
    refine ⟨?_, List.length_take_le _ _⟩
    show l <+: (l' ++ added command).take Buffer.sizeLimit
    rw [List.take_append, List.take_of_length_le hle]
    exact hbegins.trans (List.prefix_append _ _)
  obtain ⟨l', hlist', hbegins, -⟩ :=
    Rule.run_keeps hkeeps hfree hrun hlist ⟨List.prefix_refl l, hl⟩
  obtain ⟨s', hobject', rfl, -⟩ := exists_getElem?_eq hfilled'.flip hlist'
  refine ⟨_, hobject', ?_⟩
  rw [h.filled.capacity, h.filled.capacity]
  exact Buffer.capacityFor_mono hbegins.length_le

theorem Fills.refinesList (h : Fills S of k added) : RefinesList S k added where
  follows count steps := by
    have hrel := h.refines.play (h.filled_new count) steps
    generalize (play k false (S.new count) steps).map Prod.snd = objects at hrel ⊢
    generalize (appending added).run (List.replicate count []) steps = lists at hrel ⊢
    cases hrel with
    | none => exact .none
    | some hall =>
      refine .some (hall.imp ?_)
      rintro s l ⟨rfl, hl⟩
      exact h.filled.follows hl
  capacity_eq count steps records objects hplay s hs s' hs' hsize := by
    obtain ⟨lists, -, hfilled⟩ := h.exists_lists (h.filled_new count) hplay
    obtain ⟨number, hs⟩ := List.mem_iff_getElem?.1 hs
    obtain ⟨number', hs'⟩ := List.mem_iff_getElem?.1 hs'
    obtain ⟨l, -, rfl, -⟩ := exists_getElem?_eq hfilled hs
    obtain ⟨l', -, rfl, -⟩ := exists_getElem?_eq hfilled hs'
    rw [h.filled.size, h.filled.size] at hsize
    rw [h.filled.capacity, h.filled.capacity, hsize]
  capacity_le count steps records objects hplay more records' objects' hmore number s hobject
      hfree := by
    obtain ⟨lists, -, hfilled⟩ := h.exists_lists (h.filled_new count) hplay
    exact h.capacity_le hfilled hmore hobject hfree
  freed count steps records objects hplay number s hobject := by
    have hperform : perform k objects.length s .free =
        (.done S.empty .freed (k.free s).2, none) := by
      rw [perform, h.free, ← h.filled.free s]
    have hlines : record false (perform k objects.length s .free).1.events = .ok [] := rfl
    rw [step_of_recorded .free hobject hlines, hperform]
    simp [Outcome.done]

/-! ## Buffers and pools -/

/-- The elements that a command adds to a buffer. -/
def addedToBuffer : BufferCommand α → List α
  | .push a => [a]
  | .pushAll items => items
  | .fill count a => List.replicate count a
  | _ => []

/-- The values that a command adds to a pool. -/
def addedToPool : PoolCommand → List Value
  | .write v => [v]
  | .writeAll vs => vs
  | .count n => wholeNumbers n
  | _ => []

theorem state_push_eq [Element α] {l : List α} (a : α) (h : l.length ≤ Buffer.sizeLimit) :
    ((Buffer.ofList l).push a).state = .ofList ((l ++ [a]).take Buffer.sizeLimit) := by
  have hall := Buffer.state_pushAll_ofList [a] h
  rw [← hall, Buffer.pushAll]
  cases hreply : ((Buffer.ofList l).push a).reply with
  | error e => rw [Outcome.andThen_of_error _ hreply]
  | ok i =>
    rw [Outcome.andThen_of_ok _ hreply]
    rfl

/-- A command that only looks adds nothing. -/
theorem ofList_eq_of_nothing_added {l : List α} (h : l.length ≤ Buffer.sizeLimit) :
    Buffer.ofList l = .ofList ((l ++ []).take Buffer.sizeLimit) := by
  rw [List.append_nil, List.take_of_length_le h]

theorem fills_buffers [Element α] :
    Fills (Sequence.ofBuffer α) Buffer.ofList buffers addedToBuffer where
  filled := Sequence.filledBy_ofBuffer α
  act command l h := by
    have hsame := ofList_eq_of_nothing_added h
    cases command with
    | push a => exact state_push_eq a h
    | pushAll items => exact Buffer.state_pushAll_ofList items h
    | fill count a => exact Buffer.state_pushAll_ofList _ h
    | get i => exact hsame
    | items => exact hsame
  clone := rfl
  free := rfl

theorem fills_pools : Fills Sequence.ofPool (fun l => ⟨.ofList l⟩) pools addedToPool where
  filled := Sequence.filledBy_ofPool
  act command l h := by
    have hsame := ofList_eq_of_nothing_added h
    refine congrArg Pool.mk ?_
    cases command with
    | write v => exact state_push_eq v h
    | writeAll vs => exact Buffer.state_pushAll_ofList vs h
    | count n => exact Buffer.state_pushAll_ofList _ h
    | get i => exact hsame
    | values => exact hsame
  clone := rfl
  free := rfl

/-- **Buffers and pools refine lists.**  In every session, whatever the elements are and however
many buffers there are at its start and come to be, each buffer follows the list of the elements
added to it since it was last freed, and so does each pool. -/
theorem refinesList_sequences :
    (∀ (α : Type) [Element α], (default : Buffer α) = .empty ∧
      RefinesList (Sequence.ofBuffer α) buffers addedToBuffer) ∧
    (default : Pool) = .empty ∧ RefinesList Sequence.ofPool pools addedToPool :=
  ⟨fun _ _ => ⟨rfl, fills_buffers.refinesList⟩, rfl, fills_pools.refinesList⟩

end Session

end Bytecode
