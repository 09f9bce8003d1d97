import Bytecode.Proofs.Session.Sequence

/-!
# The limit of a buffer

A full buffer doubles its capacity, and the capacities of a buffer are 8, 16, 32, …
So the first capacity whose double is no machine word is `2 ^ 63`, and only a buffer
of as many elements takes no further one.

* `Buffer.Reachable` — the buffers of all sessions, with a log and without one.
* `Buffer.Reachable.exists_list` — a reachable buffer is filled by a list.
* `Buffer.exists_error_push_iff` — adding fails iff the buffer is at the limit.
* `Buffer.Bounded` — what holds at the limit and below it.
* `Buffer.bounded_of_reachable` — it holds of every reachable buffer.
-/

namespace Bytecode.Buffer

variable {α : Type} [Element α]

/-! ## Reachable buffers -/

/-- A buffer that a session comes to hold. -/
def Reachable (b : Buffer α) : Prop :=
  ∃ logged count steps records objects,
    Session.play Session.buffers logged (List.replicate count empty) steps =
      some (records, objects) ∧ b ∈ objects

/-- A reachable buffer is the one that a list fills. -/
theorem Reachable.exists_list {b : Buffer α} (h : b.Reachable) :
    ∃ l, b = ofList l ∧ l.length ≤ sizeLimit := by
  obtain ⟨logged, count, steps, records, objects, hplay, hmem⟩ := h
  refine Session.fills_buffers.refines.forall_play ?_ hplay b hmem
  intro s hs
  exact ⟨[], List.eq_of_mem_replicate hs, Nat.zero_le _⟩

theorem sizeLimit_eq : sizeLimit = 2 ^ 63 := by decide

theorem exists_error_push_iff {l : List α} (a : α) (h : l.length ≤ sizeLimit) :
    (∃ reason, ((ofList l).push a).reply = .error reason) ↔ l.length = sizeLimit := by
  rcases Nat.lt_or_eq_of_le h with hroom | hfull
  · rw [push_ofList a hroom]
    refine iff_of_false ?_ (Nat.ne_of_lt hroom)
    rintro ⟨reason, ⟨⟩⟩
  · rw [push_ofList_full a hfull]
    exact iff_of_true ⟨_, rfl⟩ hfull

/-! ## At the limit and below it -/

/-- What holds of a buffer at the limit and below it. -/
structure Bounded (b : Buffer α) : Prop where
  /-- An element is turned away iff there are `2 ^ 63` of them. -/
  error_iff : ∀ a, (∃ reason, (b.push a).reply = .error reason) ↔ b.size = 2 ^ 63
  /-- Then the buffer is left as it was, … -/
  of_error : ∀ a reason, (b.push a).reply = .error reason →
    reason.message = "attempt to multiply with overflow" ∧ (b.push a).state = b
  /-- … and a session goes on as if the element had not been offered. -/
  forgotten : b.size = 2 ^ 63 → ∀ (objects : List (Buffer α)) number a rest,
    objects[number]? = some b → ∃ reason,
      Session.play Session.buffers false objects ((number, .own (.push a)) :: rest) =
        (Session.play Session.buffers false objects rest).map fun p =>
          (⟨.error reason, b, []⟩ :: p.1, p.2)
  /-- Any other buffer takes the element, and its capacity is a machine word. -/
  of_ne : b.size ≠ 2 ^ 63 → ∀ a, (b.push a).reply = .ok b.size ∧
    (b.push a).state.toList = b.toList ++ [a] ∧ (b.push a).state.capacity < 2 ^ 64
  /-- Copying and freeing have a reply. -/
  clone : ∀ (objects : List (Buffer α)) number, objects[number]? = some b →
    Session.step Session.buffers false number .clone objects =
      some (⟨.ok (.cloned objects.length), b, []⟩, objects ++ [b])
  free : ∀ (objects : List (Buffer α)) number, objects[number]? = some b →
    Session.step Session.buffers false number .free objects =
      some (⟨.ok .freed, empty, []⟩, objects.set number empty)

omit [Element α] in
theorem set_eq_self {objects : List (Buffer α)} {number : Nat} {b : Buffer α}
    (hobject : objects[number]? = some b) : objects.set number b = objects := by
  obtain ⟨hlt, hget⟩ := List.getElem?_eq_some_iff.1 hobject
  rw [← hget, List.set_getElem_self]

section

variable {objects : List (Buffer α)} {number : Nat} {l : List α}

/-- A full buffer turns an element away, and there is nothing to log. -/
theorem step_push_full (logged : Bool) (a : α) (hfull : l.length = sizeLimit)
    (hobject : objects[number]? = some (ofList l)) :
    Session.step Session.buffers logged number (.own (.push a)) objects =
      some (⟨.error .multiply, ofList l, []⟩, objects) := by
  have hperform : Session.perform Session.buffers objects.length (ofList l) (.own (.push a)) =
      (.stop (ofList l) .multiply [], none) := by
    show (((((ofList l).push a).map _).map _, none) : _ × _) = _
    rw [push_ofList_full a hfull]
    rfl
  have hlines : Session.record logged [] = .ok [] := by cases logged <;> rfl
  rw [Session.step_of_perform hobject hperform hlines]
  simp [Outcome.stop, set_eq_self hobject]

theorem step_clone_ofList (hobject : objects[number]? = some (ofList l)) :
    Session.step Session.buffers false number .clone objects =
      some (⟨.ok (.cloned objects.length), ofList l, []⟩, objects ++ [ofList l]) := by
  have hcopy : (ofList l).clone.1 = ofList l := by rw [clone_ofList]
  have hperform : Session.perform Session.buffers objects.length (ofList l) .clone =
      (.done (ofList l) (.cloned objects.length) (ofList l).clone.2, some (ofList l)) := by
    show (Outcome.done (ofList l) _ _, some (ofList l).clone.1) = _
    rw [hcopy]
    rfl
  rw [Session.step_of_perform hobject hperform rfl]
  simp [Outcome.done, set_eq_self hobject]

theorem step_free {b : Buffer α} (hobject : objects[number]? = some b) :
    Session.step Session.buffers false number .free objects =
      some (⟨.ok .freed, empty, []⟩, objects.set number empty) := by
  have hperform : Session.perform Session.buffers objects.length b .free =
      (.done empty .freed b.free.2, none) := by
    show (Outcome.done b.free.1 _ b.free.2, none) = _
    rw [fst_free]
  rw [Session.step_of_perform hobject hperform rfl]
  simp [Outcome.done]

end

/-- Every list within the limit fills a reachable buffer. -/
theorem reachable_ofList {l : List α} (h : l.length ≤ sizeLimit) : (ofList l).Reachable := by
  have hobject : (List.replicate 1 (empty : Buffer α))[0]? = some (ofList []) := rfl
  have hperform : (Session.perform Session.buffers 1 (ofList ([] : List α))
      (.own (.pushAll l))).1.state = ofList l := by
    have hall := state_pushAll_ofList (l := []) l (Nat.zero_le _)
    rwa [List.nil_append, List.take_of_length_le h] at hall
  have hstep : Session.step Session.buffers false 0 (.own (.pushAll l)) _ = some _ :=
    Session.step_of_recorded _ hobject rfl
  refine ⟨false, 1, [(0, .own (.pushAll l))], _, _, Session.play_cons hstep [], ?_⟩
  rw [← hperform]
  exact List.mem_append_left _ (List.mem_set (Nat.zero_lt_one) _)

/-- **A buffer takes elements up to the limit, and is whole when it turns one away.**  This holds of
every reachable buffer, whatever its elements are. -/
theorem bounded_of_reachable {b : Buffer α} (hb : b.Reachable) : Bounded b := by
  obtain ⟨l, rfl, hl⟩ := hb.exists_list
  constructor
  case error_iff =>
    intro a
    rw [exists_error_push_iff a hl, size_ofList, sizeLimit_eq]
  case of_error =>
    intro a reason hreply
    have hfull := (exists_error_push_iff a hl).1 ⟨reason, hreply⟩
    rw [push_ofList_full a hfull] at hreply ⊢
    cases hreply
    exact ⟨rfl, rfl⟩
  case forgotten =>
    intro hsize objects number a rest hobject
    rw [size_ofList, ← sizeLimit_eq] at hsize
    exact ⟨.multiply, Session.play_cons (step_push_full false a hsize hobject) rest⟩
  case of_ne =>
    intro hsize a
    rw [size_ofList, ← sizeLimit_eq] at hsize
    have hroom : l.length < sizeLimit := Nat.lt_of_le_of_ne hl hsize
    rw [push_ofList a hroom]
    refine ⟨rfl, rfl, ?_⟩
    have hcapacity : capacityFor (l ++ [a]).length ≤ sizeLimit :=
      capacityFor_le_sizeLimit (length_concat_le hroom)
    exact lt_bound_of_le_sizeLimit hcapacity
  case clone => exact fun objects number => step_clone_ofList
  case free => exact fun objects number => step_free

/-- A buffer of `2 ^ 63` elements is reachable where elements take up no storage, and it takes no
further element. -/
theorem bounded_of_units :
    (ofList (List.replicate sizeLimit ())).Reachable ∧
      ∃ reason, ((ofList (List.replicate sizeLimit ())).push ()).reply = .error reason ∧
        reason.message = "attempt to multiply with overflow" := by
  have hreachable : (ofList (List.replicate sizeLimit ())).Reachable :=
    reachable_ofList (Nat.le_of_eq List.length_replicate)
  have hbounded := bounded_of_reachable hreachable
  have hsize : (ofList (List.replicate sizeLimit ())).size = 2 ^ 63 := by
    rw [size_ofList, List.length_replicate, sizeLimit_eq]
  obtain ⟨reason, hreply⟩ := (hbounded.error_iff ()).2 hsize
  exact ⟨hreachable, reason, hreply, (hbounded.of_error () reason hreply).1⟩

end Bytecode.Buffer
