import Bytecode.Proofs.Buffer.Limit
import Bytecode.Proofs.Chunk.Reachable
import Bytecode.Proofs.Session.Logging
import Mathlib.Algebra.GroupWithZero.Nat
import Mathlib.Order.Monotone.Basic

/-!
# What a log tells about growth

A buffer grows when it is full, and then to twice its capacity.  So the log of a
buffer that is filled element by element tells its capacities one after the other,
and nothing else; and the elements that it holds when it grows are, taken together,
fewer than twice those that it is filled with.

* `storageLine`, `chunkLine` — the lines about storage and about the code of a chunk.
* `Buffer.capacityAt`, `Buffer.growths` — the capacity after so many growths, and
  the growths themselves.
* `Buffer.sum_growths_lt` — the sum over all growths.
* `Buffer.play_pushes` — the log while elements are added one by one.
* `Buffer.LogsDoublings` — what the log tells about an empty buffer that is filled.
* `Chunk.LogsGrowth` — what it tells about a byte that is written to a chunk.
* `Session.logsGrowth_of_reachable` — it does so for reachable buffers and chunks.
-/

namespace Bytecode

/-! ## Lines -/

/-- The line of a log about a change of storage. -/
def storageLine (old new elementSize : Nat) : Text :=
  "DEBUG".toList ++ ' ' :: ("reallocate ".toList ++ Text.decimal (old * elementSize) ++
    " -> ".toList ++ Text.decimal (new * elementSize) ++ " bytes (".toList ++
    Text.decimal elementSize ++ " byte elements)".toList)

/-- The line of a log about code that got more storage. -/
def chunkLine (old new : Nat) : Text :=
  "TRACE".toList ++ ' ' :: ("chunk grew from ".toList ++ Text.decimal old ++ " to ".toList ++
    Text.decimal new ++ " bytes".toList)

theorem record_resized {old new elementSize : Nat} (h : (Event.resized old new elementSize).Fits) :
    (Event.resized old new elementSize).record = .ok (storageLine old new elementSize) := by
  obtain ⟨hold, hnew⟩ := h
  rw [Event.record, Event.message, Size.multiply, Size.multiply, if_pos hold, if_pos hnew]
  rfl

theorem record_append {events events' : List Event} {lines lines' : List Text}
    (h : Session.record true events = .ok lines) (h' : Session.record true events' = .ok lines') :
    Session.record true (events ++ events') = .ok (lines ++ lines') := by
  simp only [Session.record, if_true] at h h' ⊢
  rw [List.mapM_append, h, h']
  rfl

namespace Buffer

/-! ## Growth after growth -/

/-- The capacity of a buffer that has grown so many times. -/
def capacityAt : Nat → Nat
  | 0 => 0
  | count + 1 => 8 * 2 ^ count

/-- The first growths of a buffer: the capacities before and after each of them. -/
def growths (count : Nat) : List (Nat × Nat) :=
  (List.range count).map fun k => (capacityAt k, capacityAt (k + 1))

theorem growths_succ (count : Nat) :
    growths (count + 1) = growths count ++ [(capacityAt count, capacityAt (count + 1))] := by
  simp [growths, List.range_succ]

theorem capacityAt_strictMono : StrictMono capacityAt := by
  refine strictMono_nat_of_lt_succ fun count => ?_
  cases count with
  | zero => decide
  | succ k =>
    have := Nat.two_pow_pos k
    simp only [capacityAt, Nat.pow_succ]
    omega

theorem exists_capacityAt_eq (n : Nat) : ∃ count, capacityFor n = capacityAt count := by
  by_cases h : n = 0
  · exact ⟨0, by rw [h]; rfl⟩
  · obtain ⟨k, hk⟩ := exists_capacityFor_eq h
    exact ⟨k + 1, hk⟩

/-- The numbers of elements with which a buffer is full. -/
theorem eq_capacityFor_iff {n : Nat} : n = capacityFor n ↔ n = 0 ∨ ∃ k, n = 8 * 2 ^ k := by
  constructor
  · intro hfull
    by_cases h : n = 0
    · exact Or.inl h
    · obtain ⟨k, hk⟩ := exists_capacityFor_eq h
      exact Or.inr ⟨k, hfull.trans hk⟩
  · rintro (rfl | ⟨k, hk⟩)
    · rfl
    · refine Nat.le_antisymm (le_capacityFor n) ?_
      rw [hk]
      exact capacityFor_le_iff.2 (Nat.le_refl _)

/-- A full buffer goes on to the next capacity. -/
theorem capacityFor_succ_eq_capacityAt {n count : Nat} (hfull : n = capacityFor n)
    (hcount : capacityFor n = capacityAt count) :
    capacityFor (n + 1) = capacityAt (count + 1) := by
  cases count with
  | zero =>
    have hn : n = 0 := hfull.trans hcount
    rw [hn]
    rfl
  | succ k =>
    have hpos := Nat.two_pow_pos k
    have hn : n = 8 * 2 ^ k := hfull.trans hcount
    rw [capacityFor_succ_of_full hfull (by omega), hn, capacityAt, Nat.pow_succ, Nat.mul_assoc]

/-! ## The sum over all growths -/

/-- The capacities that are left behind add up to the last one, but for the first eight. -/
theorem sum_growths (count : Nat) :
    ((growths (count + 1)).map Prod.fst).sum + 8 = capacityAt (count + 1) := by
  induction count with
  | zero => rfl
  | succ k ih =>
    rw [growths_succ, List.map_append, List.sum_append]
    simp only [List.map_cons, List.map_nil, List.sum_cons, List.sum_nil, capacityAt,
      Nat.pow_succ] at ih ⊢
    omega

/-- Storage is taken for fewer than twice the elements, but for the least capacity. -/
theorem capacityFor_lt {n : Nat} (h : 0 < n) : capacityFor n < 2 * n + 8 := by
  obtain ⟨k, hk⟩ := exists_capacityFor_eq (Nat.ne_of_gt h)
  cases k with
  | zero => omega
  | succ j =>
    by_contra hlarge
    have hsmall : n ≤ 8 * 2 ^ j := by
      rw [hk, Nat.pow_succ] at hlarge
      omega
    have hpos := Nat.two_pow_pos j
    have hle := capacityFor_le_iff.2 hsmall
    rw [hk, Nat.pow_succ] at hle
    omega

/-- The elements that a buffer holds when it grows, taken together, are fewer than twice those that
it is filled with. -/
theorem sum_growths_lt {n count : Nat} (h : 0 < n) (hcount : capacityFor n = capacityAt count) :
    ((growths count).map Prod.fst).sum < 2 * n := by
  cases count with
  | zero => exact Nat.mul_pos (by decide) h
  | succ k =>
    have hsum := sum_growths k
    have hlt := capacityFor_lt h
    omega

/-! ## The log while elements are added -/

variable {α : Type} [Element α]

/-- The lines of a log when an element is added to `n` others. -/
def growthLines (α : Type) [Element α] (n : Nat) : List Text :=
  if n = capacityFor n then [storageLine n (capacityFor (n + 1)) (Element.bytes α)] else []

/-- The lines of a log when so many elements have been added to an empty buffer. -/
def linesUpTo (α : Type) [Element α] (n : Nat) : List Text :=
  (List.range n).flatMap (growthLines α)

theorem linesUpTo_succ (n : Nat) : linesUpTo α (n + 1) = linesUpTo α n ++ growthLines α n := by
  rw [linesUpTo, linesUpTo, List.range_succ, List.flatMap_append, List.flatMap_singleton]

/-- The lines about the first growths of a buffer. -/
def growthsLines (α : Type) [Element α] (count : Nat) : List Text :=
  (growths count).map fun p => storageLine p.1 p.2 (Element.bytes α)

/-- All lines so far are about the growths so far. -/
theorem linesUpTo_eq {n count : Nat} (h : capacityFor n = capacityAt count) :
    linesUpTo α n = growthsLines α count := by
  induction n generalizing count with
  | zero =>
    have hcount : count = 0 := capacityAt_strictMono.injective h.symm
    rw [hcount]
    rfl
  | succ n ih =>
    obtain ⟨before, hbefore⟩ := exists_capacityAt_eq n
    rw [linesUpTo_succ, ih hbefore, growthLines]
    by_cases hfull : n = capacityFor n
    · have hnext := capacityFor_succ_eq_capacityAt hfull hbefore
      have hcount : count = before + 1 := capacityAt_strictMono.injective (h.symm.trans hnext)
      rw [if_pos hfull, hcount, growthsLines, growthsLines, growths_succ, List.map_append, hnext,
        ← hbefore, ← hfull]
      rfl
    · have hsame := capacityFor_succ_of_lt (Nat.lt_of_le_of_ne (le_capacityFor n) hfull)
      have hcount : count = before :=
        capacityAt_strictMono.injective (h.symm.trans (hsame.trans hbefore))
      rw [if_neg hfull, hcount, List.append_nil]

theorem record_growth {n : Nat} (h : capacityFor (n + 1) * Element.bytes α ≤ storageLimit) :
    Session.record true (growth α n) = .ok (growthLines α n) := by
  unfold growth growthLines
  split
  · have hle : n * Element.bytes α ≤ capacityFor (n + 1) * Element.bytes α :=
      Nat.mul_le_mul_right _ (Nat.le_of_succ_le (le_capacityFor (n + 1)))
    have hfits := fits_of_le (Nat.le_trans hle h) h
    simp only [Session.record, if_true, List.mapM_cons, resized, record_resized hfits]
    rfl
  · rfl

theorem allocated_of_length_le {l l' : List α} (h : l.length ≤ l'.length)
    (hl' : (ofList l').Allocated) : (ofList l).Allocated :=
  Nat.le_trans (Nat.mul_le_mul_right _ (capacityFor_mono h)) hl'

section

variable {objects : List (Buffer α)} {number : Nat} {l : List α}

/-- A step that adds an element to a buffer with room. -/
theorem step_push (a : α) (hroom : l.length < sizeLimit) (halloc : (ofList (l ++ [a])).Allocated)
    (hobject : objects[number]? = some (ofList l)) :
    Session.step Session.buffers true number (.own (.push a)) objects =
      some (⟨.ok (.own (.index l.length)), ofList (l ++ [a]), growthLines α l.length⟩,
        objects.set number (ofList (l ++ [a]))) := by
  have hperform : Session.perform Session.buffers objects.length (ofList l) (.own (.push a)) =
      (.done (ofList (l ++ [a])) (.own (.index l.length)) (growth α l.length), none) := by
    show (((((ofList l).push a).map _).map _, none) : _ × _) = _
    rw [push_ofList a hroom]
    rfl
  have hcapacity : capacityFor (l.length + 1) * Element.bytes α ≤ storageLimit := by
    rwa [Allocated, capacity_ofList, List.length_append] at halloc
  rw [Session.step_of_perform hobject hperform (record_growth hcapacity)]
  simp [Outcome.done]

/-- The steps that add elements to a buffer one by one. -/
def pushes (number : Nat) (items : List α) :
    List (Nat × Session.Command (Session.BufferCommand α)) :=
  items.map fun a => (number, .own (.push a))

/-- The log goes on from the lines for the elements that are there to those for all that there is
room for. -/
theorem play_pushes {items : List α} (hl : l.length ≤ sizeLimit)
    (halloc : (ofList ((l ++ items).take sizeLimit)).Allocated)
    (hobject : objects[number]? = some (ofList l)) :
    ∃ records,
      Session.play Session.buffers true objects (pushes number items) =
        some (records, objects.set number (ofList ((l ++ items).take sizeLimit))) ∧
      linesUpTo α l.length ++ records.flatMap Session.Record.log =
        linesUpTo α ((l ++ items).take sizeLimit).length := by
  induction items generalizing l objects with
  | nil =>
    rw [List.append_nil, List.take_of_length_le hl, set_eq_self hobject]
    exact ⟨[], rfl, List.append_nil _⟩
  | cons a rest ih =>
    rcases Nat.lt_or_eq_of_le hl with hroom | hfull
    · have hassoc : l ++ a :: rest = (l ++ [a]) ++ rest := by simp
      have hnext : (l ++ [a]).length = l.length + 1 := by simp
      have hlt : number < objects.length := (List.getElem?_eq_some_iff.1 hobject).1
      have hle : (l ++ [a]).length ≤ (((l ++ [a]) ++ rest).take sizeLimit).length := by
        rw [List.length_take]
        exact Nat.le_min.2 ⟨length_concat_le hroom, (List.prefix_append _ _).length_le⟩
      rw [hassoc] at halloc ⊢
      have hstep := step_push a hroom (allocated_of_length_le hle halloc) hobject
      obtain ⟨records, hplay, hlog⟩ := ih (length_concat_le hroom) halloc
        (List.getElem?_set_self hlt)
      have hall := Session.play_cons hstep (pushes number rest)
      rw [hplay, List.set_set, Option.map_some] at hall
      refine ⟨_, hall, ?_⟩
      rw [List.flatMap_cons, ← List.append_assoc, ← hlog, hnext, linesUpTo_succ]
    · -- the element is turned away, and the rest will be
      have hsame : (l ++ a :: rest).take sizeLimit = (l ++ rest).take sizeLimit := by
        rw [← hfull, List.take_left, List.take_left]
      have hstep := step_push_full true a hfull hobject
      rw [hsame] at halloc ⊢
      obtain ⟨records, hplay, hlog⟩ := ih hl halloc hobject
      have hall := Session.play_cons hstep (pushes number rest)
      rw [hplay, Option.map_some] at hall
      refine ⟨_, hall, ?_⟩
      rwa [List.flatMap_cons, List.nil_append]

end

/-- What the log tells about an empty buffer while it is filled: each of its capacities follows the
one before, up to the last, and growing costs fewer than two moves for an element. -/
def LogsDoublings (b : Buffer α) : Prop :=
  ∀ (objects : List (Buffer α)) number items, objects[number]? = some b →
    (b.pushAll items).state.Allocated →
    ∃ records count,
      Session.play Session.buffers true objects (pushes number items) =
        some (records, objects.set number (b.pushAll items).state) ∧
      (b.pushAll items).state.capacity = capacityAt count ∧
      records.flatMap Session.Record.log = growthsLines α count ∧
      (0 < items.length → ((growths count).map Prod.fst).sum < 2 * items.length)

theorem logsDoublings_ofList_nil : LogsDoublings (ofList ([] : List α)) := by
  intro objects number items hobject halloc
  have hnone : ([] : List α).length ≤ sizeLimit := Nat.zero_le _
  rw [state_pushAll_ofList items hnone] at halloc ⊢
  obtain ⟨records, hplay, hlog⟩ := play_pushes hnone halloc hobject
  obtain ⟨count, hcount⟩ := exists_capacityAt_eq (([] ++ items).take sizeLimit).length
  refine ⟨records, count, hplay, hcount, hlog.trans (linesUpTo_eq hcount), fun hsome => ?_⟩
  have hlength : (([] ++ items).take sizeLimit).length = min sizeLimit items.length :=
    List.length_take
  have hpos : 0 < min sizeLimit items.length := Nat.lt_min.2 ⟨by decide, hsome⟩
  rw [hlength] at hcount
  have hsum := sum_growths_lt hpos hcount
  have hmin := Nat.min_le_right sizeLimit items.length
  omega

end Buffer

namespace Chunk

/-! ## Writing to a chunk -/

/-- What the log tells about a byte that is written to a chunk. -/
structure LogsGrowth (c : Chunk) : Prop where
  /-- The lengths with which a chunk is full. -/
  full_iff : c.size = c.capacity ↔ c.size = 0 ∨ ∃ k, c.size = 8 * 2 ^ k
  /-- A full chunk gets three lines, about the storage of the code, about that of the lines and
  about the chunk as a whole; any other chunk gets none. -/
  write : ∀ (objects : List Chunk) number byte line, objects[number]? = some c →
    (c.write byte line).state.Allocated → ∃ record,
      Session.step Session.chunks true number (.own (.write [byte] line)) objects =
        some (record, objects.set number (c.write byte line).state) ∧
      record.reply = .ok (.own .done) ∧
      (record.log ≠ [] ↔ c.size = c.capacity) ∧
      (c.size = c.capacity → record.log =
        [storageLine c.capacity (c.write byte line).state.capacity 1,
          storageLine c.capacity (c.write byte line).state.capacity 4,
          chunkLine c.capacity (c.write byte line).state.capacity])

/-- The lines of a log when a byte is written behind `n` others. -/
def growthLines (n : Nat) : List Text :=
  Buffer.growthLines UInt8 n ++ (Buffer.growthLines Int32 n ++
    if n = Buffer.capacityFor n then [chunkLine n (Buffer.capacityFor (n + 1))] else [])

theorem growthLines_of_full {n : Nat} (h : n = Buffer.capacityFor n) :
    growthLines n = [storageLine n (Buffer.capacityFor (n + 1)) 1,
      storageLine n (Buffer.capacityFor (n + 1)) 4, chunkLine n (Buffer.capacityFor (n + 1))] := by
  rw [growthLines, Buffer.growthLines, Buffer.growthLines, if_pos h, if_pos h, if_pos h]
  rfl

theorem growthLines_of_room {n : Nat} (h : n ≠ Buffer.capacityFor n) : growthLines n = [] := by
  rw [growthLines, Buffer.growthLines, Buffer.growthLines, if_neg h, if_neg h, if_neg h]
  rfl

theorem record_growth {n : Nat}
    (hcode : Buffer.capacityFor (n + 1) * Element.bytes UInt8 ≤ storageLimit)
    (hlines : Buffer.capacityFor (n + 1) * Element.bytes Int32 ≤ storageLimit) :
    Session.record true (growth n) = .ok (growthLines n) := by
  refine record_append (Buffer.record_growth hcode) (record_append (Buffer.record_growth hlines) ?_)
  split <;> rfl

variable {history : List (UInt8 × Int32)} {constants : Pool}

/-- A chunk at the limit has no room for a byte, since its storage could not be had. -/
theorem length_lt_of_allocated_write (h : history.length ≤ Buffer.sizeLimit) {byte : UInt8}
    {line : Int32} (halloc : ((holding history constants).write byte line).state.Allocated) :
    history.length < Buffer.sizeLimit := by
  refine Nat.lt_of_le_of_ne h fun hfull => ?_
  rw [write_holding_full byte line hfull] at halloc
  have hcode : Buffer.capacityFor (history.map Prod.fst).length * 1 ≤ storageLimit := halloc.1
  rw [List.length_map, hfull, Buffer.capacityFor_sizeLimit] at hcode
  exact absurd hcode (by decide)

/-- A step that writes a byte to a chunk with room. -/
theorem step_write {objects : List Chunk} {number : Nat} (byte : UInt8) (line : Int32)
    (hroom : history.length < Buffer.sizeLimit)
    (halloc : (holding (history ++ [(byte, line)]) constants).Allocated)
    (hobject : objects[number]? = some (holding history constants)) :
    Session.step Session.chunks true number (.own (.write [byte] line)) objects =
      some (⟨.ok (.own .done), holding (history ++ [(byte, line)]) constants,
          growthLines history.length⟩,
        objects.set number (holding (history ++ [(byte, line)]) constants)) := by
  have hwrite : (holding history constants).writeAll [byte] line =
      .done (holding (history ++ [(byte, line)]) constants) () (growth history.length) := by
    simp only [writeAll, write_holding byte line hroom, Outcome.andThen_done]
    simp only [Outcome.done, List.append_nil]
  have hperform : Session.perform Session.chunks objects.length (holding history constants)
      (.own (.write [byte] line)) =
        (.done (holding (history ++ [(byte, line)]) constants) (.own .done)
          (growth history.length), none) := by
    show ((((holding history constants).writeAll [byte] line).map _).map _, none) = _
    rw [hwrite]
    rfl
  have hlength : (history ++ [(byte, line)]).length = history.length + 1 := by simp
  have hcode : Buffer.capacityFor (history.length + 1) * Element.bytes UInt8 ≤ storageLimit := by
    have h := halloc.1
    rwa [holding, Buffer.Allocated, Buffer.capacity_ofList, List.length_map, hlength] at h
  have hlines : Buffer.capacityFor (history.length + 1) * Element.bytes Int32 ≤ storageLimit := by
    have h := halloc.2.1
    rwa [holding, Buffer.Allocated, Buffer.capacity_ofList, List.length_map, hlength] at h
  rw [Session.step_of_perform hobject hperform (record_growth hcode hlines)]
  simp [Outcome.done]

theorem logsGrowth_holding (h : history.length ≤ Buffer.sizeLimit) :
    LogsGrowth (holding history constants) := by
  have hsize : (holding history constants).size = history.length := by
    rw [size, holding, Buffer.size_ofList, List.length_map]
  constructor
  case full_iff =>
    rw [hsize, capacity_holding]
    exact Buffer.eq_capacityFor_iff
  case write =>
    intro objects number byte line hobject halloc
    have hroom := length_lt_of_allocated_write h halloc
    rw [hsize, capacity_holding]
    rw [write_holding byte line hroom] at halloc ⊢
    refine ⟨_, step_write byte line hroom halloc hobject, rfl, ?_, ?_⟩
    · by_cases hfull : history.length = Buffer.capacityFor history.length
      · refine iff_of_true ?_ hfull
        rw [growthLines_of_full hfull]
        exact List.cons_ne_nil _ _
      · refine iff_of_false ?_ hfull
        rw [growthLines_of_room hfull]
        exact fun hne => hne rfl
    · intro hfull
      have hnew : (holding (history ++ [(byte, line)]) constants).capacity =
          Buffer.capacityFor (history.length + 1) := by
        rw [capacity_holding, List.length_append, List.length_singleton]
      show growthLines history.length = [storageLine _ (holding _ constants).capacity 1,
        storageLine _ (holding _ constants).capacity 4, chunkLine _ (holding _ constants).capacity]
      rw [growthLines_of_full hfull, hnew, ← hfull]

end Chunk

/-! ## Sessions -/

/-- **A log tells how objects grow.**  A byte that is written to a reachable chunk is logged iff the
chunk is full, and elements that are added to an empty buffer lead to one line for each doubling of
the capacity. -/
theorem Session.logsGrowth_of_reachable :
    (∀ c : Chunk, c.Reachable → c.LogsGrowth) ∧
      ∀ {α : Type} [Element α] (b : Buffer α), b.Reachable → b.size = 0 → b.LogsDoublings := by
  constructor
  · intro c hc
    obtain ⟨history, hholds⟩ := hc.exists_holds
    rw [hholds.eq_holding]
    exact Chunk.logsGrowth_holding hholds.length_le
  · intro α _ b hb hnone
    obtain ⟨l, rfl, -⟩ := hb.exists_list
    rw [Buffer.size_ofList, List.length_eq_zero_iff] at hnone
    rw [hnone]
    exact Buffer.logsDoublings_ofList_nil

/-- The ninth byte of a chunk leads to three lines, and nine numbers in an empty buffer to two. -/
theorem Session.logsGrowth_of_nine :
    (∃ record objects, Session.step Session.chunks true 0 (.own (.write [2] 4))
        [Chunk.empty.after [.write (List.replicate 8 1) 3]] = some (record, objects) ∧
      record.log = ["DEBUG reallocate 8 -> 16 bytes (1 byte elements)".toList,
        "DEBUG reallocate 32 -> 64 bytes (4 byte elements)".toList,
        "TRACE chunk grew from 8 to 16 bytes".toList]) ∧
    ∃ records objects, Session.play Session.buffers true [(Buffer.empty : Buffer Int64)]
        (Buffer.pushes 0 (List.replicate 9 5)) = some (records, objects) ∧
      records.flatMap Session.Record.log =
        ["DEBUG reallocate 0 -> 64 bytes (8 byte elements)".toList,
          "DEBUG reallocate 64 -> 128 bytes (8 byte elements)".toList] := by
  constructor
  · have hgrowth := Session.logsGrowth_of_reachable.1 _
      (Chunk.reachable_empty.after [.write (List.replicate 8 1) 3])
    obtain ⟨record, hstep, -, -, hlog⟩ := hgrowth.write [_] 0 2 4 rfl (by decide)
    exact ⟨record, _, hstep, (hlog (by decide)).trans (by decide)⟩
  · have hempty : (Buffer.empty : Buffer Int64).Reachable :=
      Buffer.reachable_ofList (l := []) (Nat.zero_le _)
    have hdoublings := Session.logsGrowth_of_reachable.2 _ hempty rfl
    obtain ⟨records, count, hplay, hcapacity, hlog, -⟩ :=
      hdoublings [_] 0 (List.replicate 9 5) rfl (by decide)
    have hsixteen : Buffer.capacityAt 2 = Buffer.capacityAt count := hcapacity
    rw [← Buffer.capacityAt_strictMono.injective hsixteen] at hlog
    exact ⟨records, _, hplay, hlog.trans (by decide)⟩

end Bytecode
