import Bytecode.Proofs.Chunk.Constants
import Bytecode.Proofs.Chunk.History

/-!
# Reachable chunks

A chunk is reachable if a session comes to hold it.  Its code and its lines are
those of a history, so there are as many lines as bytes, and no more of them than
a buffer takes.

* `Chunk.Reachable` — the chunks of all sessions, with a log and without one.
* `Chunk.Reachable.exists_holds`, `Chunk.Reachable.exists_holdsConstants` — a
  reachable chunk has a history, and constants that it has accepted.
* `Chunk.after` — the chunk that some commands lead to; it is reachable if the
  chunk before them is (`Reachable.after`).
-/

namespace Bytecode.Chunk

/-- A chunk that a session comes to hold. -/
def Reachable (c : Chunk) : Prop :=
  ∃ logged steps records objects,
    Session.play Session.chunks logged [empty] steps = some (records, objects) ∧ c ∈ objects

variable {c : Chunk} {history : List (UInt8 × Int32)}

theorem Reachable.exists_holds (h : Reachable c) : ∃ history, Holds c history := by
  obtain ⟨logged, steps, records, objects, hplay, hmem⟩ := h
  refine refines_histories.forall_play ?_ hplay c hmem
  intro s hs
  rw [List.mem_singleton.1 hs]
  exact ⟨[], holds_empty⟩

/-- A reachable chunk holds the constants that it has accepted. -/
theorem Reachable.exists_holdsConstants (h : Reachable c) :
    ∃ accepted, HoldsConstants c accepted := by
  obtain ⟨logged, steps, records, objects, hplay, hmem⟩ := h
  refine refines_acceptance.forall_play ?_ hplay c hmem
  intro s hs
  rw [List.mem_singleton.1 hs]
  exact ⟨[], holdsConstants_empty⟩

theorem Holds.toList_code (h : Holds c history) : c.code.toList = history.map Prod.fst := by
  rw [h.code, Buffer.toList_ofList]

theorem Reachable.size_le (h : Reachable c) : c.size ≤ Buffer.sizeLimit := by
  obtain ⟨history, hholds⟩ := h.exists_holds
  rw [hholds.size_eq]
  exact hholds.length_le

/-- Every offset into a reachable chunk is a machine word. -/
theorem Reachable.size_lt_bound (h : Reachable c) : c.size < Size.bound :=
  Buffer.lt_bound_of_le_sizeLimit h.size_le

/-- A reachable chunk has as many lines as bytes. -/
theorem Reachable.lineAt_isSome_iff (h : Reachable c) {offset : Nat} :
    (c.lineAt offset).isSome = true ↔ offset < c.size := by
  obtain ⟨history, hholds⟩ := h.exists_holds
  exact hholds.follows.lineAt_isSome offset

/-! ## Chunks after some commands -/

/-- The chunk that some commands lead to. -/
def after (c : Chunk) (commands : List Session.ChunkCommand) : Chunk :=
  commands.foldl (fun c command => (Session.actOnChunk command c).state) c

@[simp] theorem after_cons (c : Chunk) (command : Session.ChunkCommand)
    (commands : List Session.ChunkCommand) :
    c.after (command :: commands) = ((Session.actOnChunk command c).state).after commands := rfl

theorem reachable_empty : Reachable empty :=
  ⟨false, [], [], [empty], rfl, List.mem_singleton_self _⟩

/-- A command leads from a reachable chunk to a reachable one. -/
theorem Reachable.act (h : Reachable c) (command : Session.ChunkCommand) :
    Reachable (Session.actOnChunk command c).state := by
  obtain ⟨logged, steps, records, objects, hplay, hmem⟩ := h
  obtain ⟨steps', records', hplay'⟩ := Session.exists_play_without_log hplay
  obtain ⟨number, hobject⟩ := List.mem_iff_getElem?.1 hmem
  have hstep : Session.step Session.chunks false number (.own command) objects = some _ :=
    Session.step_of_recorded _ hobject rfl
  have hmore := Session.play_cons hstep []
  refine ⟨false, _, _, _, Session.play_append hplay' hmore, ?_⟩
  exact List.mem_append_left _ (List.mem_set (List.getElem?_eq_some_iff.1 hobject).1 _)

theorem Reachable.after (h : Reachable c) (commands : List Session.ChunkCommand) :
    Reachable (c.after commands) := by
  induction commands generalizing c with
  | nil => exact h
  | cons command commands ih =>
    rw [after_cons]
    exact ih (h.act command)

end Bytecode.Chunk
