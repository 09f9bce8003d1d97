import Bytecode.Proofs.Chunk.Operations
import Bytecode.Proofs.Session.Refinement

/-!
# Chunks follow their histories

All that shows of the code and the lines of a chunk is told by its history: the
bytes written since it was last freed, each with its line.

* `Chunk.histories` — how the history of each chunk of a session goes on.
* `Chunk.Holds` — the buffers of code and of lines are those that the history
  fills.  Every command keeps this (`refines_histories`).
* `Chunk.Follows` — what can be seen of a chunk with a history.
* `Chunk.follows_histories` — every chunk of a session follows its history.
-/

namespace Bytecode.Chunk

open Session (ChunkCommand)

/-! ## Histories -/

/-- The bytes that a command writes, with their lines. -/
def written : ChunkCommand → List (UInt8 × Int32)
  | .write bytes line => bytes.map (·, line)
  | .writeOpcode op line => [(op.byte, line)]
  | .writeInstruction i line => i.encode.map (·, line)
  | _ => []

/-- The history of a chunk starts with nothing written, and every command adds what it writes.
No byte is written behind the last one that fits. -/
def histories : Session.Rule ChunkCommand (List (UInt8 × Int32)) where
  start := []
  act command history := (history ++ written command).take Buffer.sizeLimit

/-! ## What every command keeps -/

/-- The buffers of a chunk are those that its history fills. -/
structure Holds (c : Chunk) (history : List (UInt8 × Int32)) : Prop where
  code : c.code = .ofList (history.map Prod.fst)
  lines : c.lines = .ofList (history.map Prod.snd)
  length_le : history.length ≤ Buffer.sizeLimit

variable {c : Chunk} {history : List (UInt8 × Int32)}

/-- A new chunk has the empty history. -/
theorem holds_empty : Holds empty [] := ⟨rfl, rfl, Nat.zero_le _⟩

/-- Besides its history, a chunk has nothing but its constants. -/
theorem Holds.eq_holding (h : Holds c history) : c = holding history c.constants := by
  obtain ⟨code, lines, constants⟩ := c
  obtain ⟨rfl, rfl, _⟩ := h
  rfl

/-- Bytes that are written go to the end of the history, as far as they fit. -/
theorem Holds.writeAll (h : Holds c history) (bytes : List UInt8) (line : Int32) :
    Holds (c.writeAll bytes line).state
      ((history ++ bytes.map (·, line)).take Buffer.sizeLimit) := by
  rw [h.eq_holding, state_writeAll_holding c.constants bytes line h.length_le]
  exact ⟨rfl, rfl, List.length_take_le ..⟩

theorem Holds.write (h : Holds c history) (byte : UInt8) (line : Int32) :
    Holds (c.write byte line).state ((history ++ [(byte, line)]).take Buffer.sizeLimit) := by
  have hall := h.writeAll [byte] line
  have hstate : (c.writeAll [byte] line).state = (c.write byte line).state :=
    Outcome.state_andThen (P := (· = (c.write byte line).state)) rfl fun _ _ hs => hs
  rwa [hstate] at hall

/-- Commands that leave code and lines alone leave the history alone. -/
theorem Holds.of_sameCode {d : Chunk} (h : Holds c history)
    (hsame : d.code = c.code ∧ d.lines = c.lines) :
    Holds d ((history ++ []).take Buffer.sizeLimit) := by
  rw [List.append_nil, List.take_of_length_le h.length_le]
  exact ⟨hsame.1.trans h.code, hsame.2.trans h.lines, h.length_le⟩

/-- A copy begins with the history of its source. -/
theorem Holds.clone (h : Holds c history) : Holds c.clone.1 history := by
  refine ⟨?_, ?_, h.length_le⟩
  · show c.code.clone.1 = _
    rw [h.code, Buffer.clone_ofList]
  · show c.lines.clone.1 = _
    rw [h.lines, Buffer.clone_ofList]

theorem holds_free (c : Chunk) : Holds c.free.1 [] :=
  ⟨Buffer.fst_free c.code, Buffer.fst_free c.lines, Nat.zero_le _⟩

/-- Every command keeps what a chunk holds in step with its history. -/
theorem refines_histories : Session.Refines Session.chunks histories Holds where
  act command c history h := by
    cases command with
    | write bytes line => exact h.writeAll bytes line
    | writeOpcode op line => exact h.write op.byte line
    | writeInstruction i line => exact h.writeAll i.encode line
    | addConstant v => exact h.of_sameCode (c.sameCode_addConstant v)
    | addCount n => exact h.of_sameCode (c.sameCode_addConstants _)
    | listing | listAt | print | printAt =>
      refine h.of_sameCode ?_
      simp only [Session.chunks, Session.actOnChunk, state_written, and_self]
    | code | lines | lineAt | lookup | constants | entries => exact h.of_sameCode ⟨rfl, rfl⟩
  clone _ _ h := h.clone
  free c _ _ := holds_free c

/-! ## What can be seen -/

/-- Code and lines have one length and one capacity. -/
def InStep (c : Chunk) : Prop :=
  c.code.size = c.lines.size ∧ c.code.capacity = c.lines.capacity

/-- What can be seen of a chunk with a history. -/
structure Follows (c : Chunk) (history : List (UInt8 × Int32)) : Prop where
  code : c.code.toList = history.map Prod.fst
  lines : c.lines.toList = history.map Prod.snd
  inStep : c.InStep
  capacity_of_empty : c.size = 0 → c.capacity = 0
  /-- The capacity is the least of 8, 16, 32, … that the code needs. -/
  capacity_of_code : c.size ≠ 0 →
    IsLeast {n | (∃ k, n = 8 * 2 ^ k) ∧ c.size ≤ n} c.capacity
  lineAt : ∀ offset, c.lineAt offset = history[offset]?.map Prod.snd
  lineAt_isSome : ∀ offset, (c.lineAt offset).isSome ↔ offset < c.size
  /-- Behind every byte that is written, code and lines are in step again. -/
  inStep_writeAll : ∀ bytes line, (c.writeAll bytes line).state.InStep
  /-- Bytes are only turned away where they do not fit. -/
  reply_writeAll : ∀ bytes line, (c.writeAll bytes line).reply =
    if history.length + bytes.length ≤ Buffer.sizeLimit then .ok () else .error .multiply
  addConstant : ∀ v, (c.addConstant v).state.code = c.code ∧ (c.addConstant v).state.lines = c.lines

theorem Holds.inStep (h : Holds c history) : c.InStep := by
  rw [InStep, h.code, h.lines]
  simp

theorem Holds.size_eq (h : Holds c history) : c.size = history.length := by
  rw [size, h.code, Buffer.size_ofList, List.length_map]

theorem Holds.capacity_eq (h : Holds c history) :
    c.capacity = Buffer.capacityFor history.length := by
  rw [h.eq_holding, capacity_holding]

theorem Holds.lineAt_eq (h : Holds c history) (offset : Nat) :
    c.lineAt offset = history[offset]?.map Prod.snd := by
  rw [lineAt, h.lines, Buffer.get?_ofList, List.getElem?_map]

theorem Holds.follows (h : Holds c history) : Follows c history where
  code := by rw [h.code, Buffer.toList_ofList]
  lines := by rw [h.lines, Buffer.toList_ofList]
  inStep := h.inStep
  capacity_of_empty hnone := by
    rw [h.capacity_eq, ← h.size_eq, hnone, Buffer.capacityFor_zero]
  capacity_of_code hsome := by
    rw [h.capacity_eq, ← h.size_eq]
    exact Buffer.isLeast_capacityFor hsome
  lineAt := h.lineAt_eq
  lineAt_isSome offset := by
    rw [h.lineAt_eq, Option.isSome_map, h.size_eq, isSome_getElem?]
  inStep_writeAll bytes line := (h.writeAll bytes line).inStep
  reply_writeAll bytes line := by
    rw [h.eq_holding]
    exact reply_writeAll_holding c.constants bytes line h.length_le
  addConstant v := c.sameCode_addConstant v

/-- **Every chunk of a session follows its history.**  A session begins with one empty chunk and may
come to hold any number of them; this is so at every stage, since a stage is the end of a shorter
session. -/
theorem follows_histories :
    (default : Chunk) = empty ∧
    ∀ steps, Option.Rel (List.Forall₂ Follows)
      ((Session.play Session.chunks false [empty] steps).map Prod.snd)
      (histories.run [histories.start] steps) := by
  refine ⟨rfl, fun steps => ?_⟩
  have hplay := refines_histories.play (.cons holds_empty .nil) steps
  generalize (Session.play Session.chunks false [empty] steps).map Prod.snd = objects at hplay ⊢
  change Option.Rel _ _ (histories.run [[]] steps)
  generalize histories.run [[]] steps = accounts at hplay ⊢
  cases hplay with
  | none => exact .none
  | some hall => exact .some (hall.imp fun _ _ h => h.follows)

end Bytecode.Chunk
