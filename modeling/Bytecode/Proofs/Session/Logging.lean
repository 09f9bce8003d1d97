import Bytecode.Proofs.Session.Refinement
import Bytecode.Session.Buffer
import Bytecode.Session.Chunk

/-!
# A log changes nothing

The lines of a log speak of sizes in bytes, and these are products that are worked
out for the log alone.  They fit in a machine word as long as the storage that
they speak of can be had: the larger of the two sizes of an event is that of
storage which is there afterwards, or was there before.

* `Buffer.Allocated`, `Pool.Allocated`, `Chunk.Allocated` — the storage of an
  object can be had.
* `Records` — if the storage that an operation ends with can be had, then so could
  that which it began with, and its events can be recorded.  Operations that are
  done one after the other keep this (`Records.andThen`).
* `Session.Recordable` — all commands of a kind of objects record.
* `Session.Throughout` — a property of the objects at every stage of a session.
* `Session.Recordable.play_eq` — the two runs of a session, with a log and without
  one, agree at every step.
* `Session.UnchangedByLog` — and so do the answers of the program to its steps.
* `Session.unchangedByLog_sessions` — so it is for buffers, pools and chunks, and
  for a change of storage on its own.
-/

namespace Bytecode

/-! ## Storage that can be had -/

/-- The greatest number of bytes that storage can have. -/
def storageLimit : Nat := 0x7fffffffffffffff

/-- The storage of a buffer can be had. -/
def Buffer.Allocated {α : Type} [Element α] (b : Buffer α) : Prop :=
  b.capacity * Element.bytes α ≤ storageLimit

/-- The storage of a pool can be had. -/
def Pool.Allocated (p : Pool) : Prop := p.values.Allocated

/-- The storage of a chunk can be had. -/
def Chunk.Allocated (c : Chunk) : Prop :=
  c.code.Allocated ∧ c.lines.Allocated ∧ c.constants.Allocated

instance {α : Type} [Element α] (b : Buffer α) : Decidable b.Allocated :=
  inferInstanceAs (Decidable (_ ≤ _))

instance (p : Pool) : Decidable p.Allocated := inferInstanceAs (Decidable p.values.Allocated)

instance (c : Chunk) : Decidable c.Allocated := inferInstanceAs (Decidable (_ ∧ _))

/-- The sizes that an event speaks of fit, if both are sizes of storage that can be had. -/
theorem fits_of_le {old new elementSize : Nat} (hold : old * elementSize ≤ storageLimit)
    (hnew : new * elementSize ≤ storageLimit) : (Event.resized old new elementSize).Fits := by
  have hlimit : storageLimit < Size.bound := by decide
  exact ⟨Nat.lt_of_le_of_lt hold hlimit, Nat.lt_of_le_of_lt hnew hlimit⟩

/-! ## Operations whose events can be recorded -/

/-- If an operation ends with storage that can be had, then it began with such storage, and the
sizes that its events speak of fit. -/
structure Records {ε σ ρ : Type} (P : σ → Prop) (before : σ) (o : Outcome ε σ ρ) : Prop where
  before : P o.state → P before
  fits : P o.state → ∀ e ∈ o.events, e.Fits

section Records

variable {ε σ τ ρ ρ' : Type} {P : σ → Prop} {before : σ}

theorem records_done {r : ρ} {events : List Event} (h : ∀ e ∈ events, e.Fits) :
    Records P before (.done before r events : Outcome ε σ ρ) where
  before hP := hP
  fits _ := h

theorem records_stop {reason : ε} {events : List Event} (h : ∀ e ∈ events, e.Fits) :
    Records P before (.stop before reason events : Outcome ε σ ρ) where
  before hP := hP
  fits _ := h

theorem forall_mem_nil_fits : ∀ e ∈ ([] : List Event), e.Fits := fun _ h => nomatch h

/-- Operations that are done one after the other record, if each does. -/
theorem Records.andThen {o : Outcome ε σ ρ} {next : ρ → σ → Outcome ε σ ρ'}
    (h : Records P before o) (hnext : ∀ r, Records P o.state (next r o.state)) :
    Records P before (o.andThen next) := by
  cases hreply : o.reply with
  | error e =>
    rw [Outcome.andThen_of_error next hreply]
    exact ⟨h.before, h.fits⟩
  | ok r =>
    rw [Outcome.andThen_of_ok next hreply]
    refine ⟨fun hP => h.before ((hnext r).before hP), fun hP e he => ?_⟩
    rcases List.mem_append.1 he with he | he
    · exact h.fits ((hnext r).before hP) e he
    · exact (hnext r).fits hP e he

theorem Records.map {o : Outcome ε σ ρ} (h : Records P before o) (f : ρ → ρ') :
    Records P before (o.map f) :=
  ⟨h.before, h.fits⟩

/-- An operation on a part, where the other parts of the whole meet `R`. -/
theorem Records.within {o : Outcome ε σ ρ} (h : Records P before o) {Q : τ → Prop} {R : Prop}
    (whole : σ → τ) (hwhole : ∀ s, Q (whole s) ↔ P s ∧ R) :
    Records Q (whole before) (o.within whole) where
  before hQ := by
    obtain ⟨hP, hR⟩ := (hwhole _).1 hQ
    exact (hwhole _).2 ⟨h.before hP, hR⟩
  fits hQ := h.fits ((hwhole _).1 hQ).1

end Records

/-! ## Buffers and pools -/

namespace Buffer

variable {α : Type} [Element α]

/-- The storage before a push could be had, as it was smaller, if it was not the same. -/
theorem records_push (b : Buffer α) (a : α) : Records Allocated b (b.push a) := by
  by_cases hfull : b.size = b.capacity
  · cases hgrow : grow b.capacity with
    | error e =>
      rw [push_of_stuck a hfull hgrow]
      exact records_stop forall_mem_nil_fits
    | ok capacity =>
      have hbefore : capacity * Element.bytes α ≤ storageLimit → b.Allocated := fun h =>
        Nat.le_trans (Nat.mul_le_mul_right _ (Nat.le_of_lt (lt_of_grow hgrow))) h
      rw [push_of_grow a hfull hgrow]
      refine ⟨hbefore, fun h e he => ?_⟩
      rw [List.mem_singleton.1 he]
      exact fits_of_le (hbefore h) h
  · rw [push_of_room a hfull]
    exact ⟨id, fun _ => forall_mem_nil_fits⟩

theorem records_pushAll (b : Buffer α) (items : List α) :
    Records Allocated b (b.pushAll items) := by
  induction items generalizing b with
  | nil => exact records_done forall_mem_nil_fits
  | cons a rest ih => exact (b.records_push a).andThen fun i => (ih _).map _

theorem fits_clone {b : Buffer α} (h : b.Allocated) : ∀ e ∈ b.clone.2, e.Fits := by
  intro e he
  rw [List.mem_singleton.1 he]
  exact fits_of_le (by omega) h

theorem fits_free {b : Buffer α} (h : b.Allocated) : ∀ e ∈ b.free.2, e.Fits := by
  intro e he
  rw [List.mem_singleton.1 he]
  exact fits_of_le h (by omega)

end Buffer

namespace Pool

theorem allocated_mk_iff (values : Buffer Value) :
    Allocated ⟨values⟩ ↔ values.Allocated ∧ True :=
  ⟨fun h => ⟨h, trivial⟩, fun h => h.1⟩

/-- A pool adds a value the way its buffer does. -/
theorem records_write (p : Pool) (v : Value) : Records Allocated p (p.write v) := by
  obtain ⟨values⟩ := p
  exact (values.records_push v).within Pool.mk allocated_mk_iff

theorem records_writeAll (p : Pool) (vs : List Value) : Records Allocated p (p.writeAll vs) := by
  obtain ⟨values⟩ := p
  exact (values.records_pushAll vs).within Pool.mk allocated_mk_iff

end Pool

/-! ## Chunks -/

namespace Chunk

theorem records_pushByte (c : Chunk) (byte : UInt8) : Records Allocated c (c.pushByte byte) := by
  obtain ⟨code, lines, constants⟩ := c
  have hwhole : ∀ code, Allocated ⟨code, lines, constants⟩ ↔
      code.Allocated ∧ lines.Allocated ∧ constants.Allocated := fun _ => Iff.rfl
  exact (code.records_push byte).within (Chunk.mk · lines constants) hwhole

theorem records_pushLine (c : Chunk) (line : Int32) : Records Allocated c (c.pushLine line) := by
  obtain ⟨code, lines, constants⟩ := c
  have hwhole : ∀ lines, Allocated ⟨code, lines, constants⟩ ↔
      lines.Allocated ∧ code.Allocated ∧ constants.Allocated := fun _ => and_left_comm
  exact (lines.records_push line).within (Chunk.mk code · constants) hwhole

theorem records_pushConstant (c : Chunk) (v : Value) :
    Records Allocated c (c.pushConstant v) := by
  obtain ⟨code, lines, constants⟩ := c
  have hwhole : ∀ pool, Allocated ⟨code, lines, pool⟩ ↔
      pool.Allocated ∧ code.Allocated ∧ lines.Allocated := fun _ => and_assoc.symm.trans and_comm
  exact (constants.records_write v).within (Chunk.mk code lines ·) hwhole

theorem records_write (c : Chunk) (byte : UInt8) (line : Int32) :
    Records Allocated c (c.write byte line) := by
  refine (c.records_pushByte byte).andThen fun _ => (records_pushLine _ line).andThen fun _ => ?_
  refine records_done fun e he => ?_
  split at he
  · cases he
  · rw [List.mem_singleton.1 he]
    trivial

theorem records_writeAll (c : Chunk) (bytes : List UInt8) (line : Int32) :
    Records Allocated c (c.writeAll bytes line) := by
  induction bytes generalizing c with
  | nil => exact records_done forall_mem_nil_fits
  | cons byte rest ih => exact (c.records_write byte line).andThen fun _ => ih _

theorem records_addConstant (c : Chunk) (v : Value) : Records Allocated c (c.addConstant v) := by
  unfold addConstant
  dsimp only
  split
  · refine (c.records_pushConstant v).andThen fun _ => records_done fun e he => ?_
    rw [List.mem_singleton.1 he]
    trivial
  · exact records_done forall_mem_nil_fits

theorem records_addConstants (c : Chunk) (vs : List Value) :
    Records Allocated c (c.addConstants vs) := by
  induction vs generalizing c with
  | nil => exact records_done forall_mem_nil_fits
  | cons v rest ih => exact (c.records_addConstant v).andThen fun _ => (ih _).map _

theorem fits_clone {c : Chunk} (h : c.Allocated) : ∀ e ∈ c.clone.2, e.Fits := by
  obtain ⟨hcode, hlines, hconstants⟩ := h
  refine List.forall_mem_append.2 ⟨List.forall_mem_append.2 ⟨?_, ?_⟩, ?_⟩
  · exact Buffer.fits_clone hcode
  · exact Buffer.fits_clone hlines
  · exact Buffer.fits_clone hconstants

theorem fits_free {c : Chunk} (h : c.Allocated) : ∀ e ∈ c.free.2, e.Fits := by
  obtain ⟨hcode, hlines, hconstants⟩ := h
  refine List.forall_mem_append.2 ⟨List.forall_mem_append.2 ⟨?_, ?_⟩, ?_⟩
  · exact Buffer.fits_free hcode
  · exact Buffer.fits_free hlines
  · exact Buffer.fits_free hconstants

end Chunk

/-! ## Listings -/

namespace Listing

/-- Nothing is asked of a sink. -/
abbrev Anything (_ : Sink) : Prop := True

theorem records_sink (s : Sink) (piece : Text) : Records Anything s (s.write piece) := by
  unfold Sink.write
  dsimp only
  split
  · exact ⟨fun _ => trivial, fun _ => forall_mem_nil_fits⟩
  · exact records_stop forall_mem_nil_fits

theorem fits_lineEvents (c : Chunk) (offset : Nat) : ∀ e ∈ lineEvents c offset, e.Fits := by
  intro e he
  unfold lineEvents at he
  split at he
  · split at he
    · cases he
    · rw [List.mem_singleton.1 he]
      trivial
  · cases he

/-- No line speaks of a size. -/
theorem records_writeAt (c : Chunk) (offset : Nat) (s : Sink) :
    Records Anything s (writeAt c offset s) := by
  refine Records.andThen (records_done (fits_lineEvents c offset)) fun _ => ?_
  refine (records_sink s _).andThen fun _ => (records_sink _ _).andThen fun _ => ?_
  split
  · exact records_stop forall_mem_nil_fits
  · exact records_done forall_mem_nil_fits

theorem records_writeFrom (c : Chunk) (offset : Nat) (s : Sink) :
    Records Anything s (writeFrom c offset s) := by
  fun_induction writeFrom c offset s with
  | case1 offset s h ih => exact (records_writeAt c offset s).andThen fun next => ih next _
  | case2 offset s h => exact records_done forall_mem_nil_fits

theorem records_write (l : Listing) (s : Sink) : Records Anything s (l.write s) := by
  unfold write
  split
  · exact records_writeFrom l.chunk 0 s
  · refine Records.andThen ?_ fun _ => records_writeFrom l.chunk 0 _
    exact (records_sink s _).andThen fun _ => (records_sink _ _).andThen fun _ =>
      records_sink _ _

theorem fits_printAt (c : Chunk) (offset : Nat) : ∀ e ∈ (printAt c offset).events, e.Fits := by
  have hline := (records_writeAt c offset (.fresh none)).fits trivial
  unfold printAt
  dsimp only
  split <;> exact hline

end Listing

theorem Session.records_written {ρ : Type} (c : Chunk) {o : Outcome WriteFault Sink ρ}
    (reply : ρ → String → Session.ChunkReply) (h : ∀ e ∈ o.events, e.Fits) :
    Records Chunk.Allocated c (Session.written c o reply) := by
  unfold Session.written
  split
  · exact records_done h
  · exact records_done h
  · exact records_stop h

/-! ## Kinds of objects -/

namespace Session

variable {σ γ ρ : Type} {k : Kind σ γ ρ} {P : σ → Prop}

/-- All commands of a kind of objects record, where `P` says that the storage of an object can be
had. -/
structure Recordable (k : Kind σ γ ρ) (P : σ → Prop) : Prop where
  act : ∀ command object, Records P object (k.act command object)
  clone : ∀ object, P object → ∀ e ∈ (k.clone object).2, e.Fits
  free : ∀ object, P object → ∀ e ∈ (k.free object).2, e.Fits

theorem recordable_buffers {α : Type} [Element α] :
    Recordable (buffers : Kind (Buffer α) _ _) Buffer.Allocated where
  act command b := by
    cases command with
    | push a => exact (b.records_push a).map _
    | pushAll items => exact (b.records_pushAll items).map _
    | fill count a => exact (b.records_pushAll _).map _
    | get i => exact records_done forall_mem_nil_fits
    | items => exact records_done forall_mem_nil_fits
  clone _ h := Buffer.fits_clone h
  free _ h := Buffer.fits_free h

theorem recordable_pools : Recordable pools Pool.Allocated where
  act command p := by
    cases command with
    | write v => exact (p.records_write v).map _
    | writeAll vs => exact (p.records_writeAll vs).map _
    | count n => exact (p.records_writeAll _).map _
    | get i => exact records_done forall_mem_nil_fits
    | values => exact records_done forall_mem_nil_fits
  clone _ h := Buffer.fits_clone h
  free _ h := Buffer.fits_free h

/-- Every command of a chunk records: the events of listings have no sizes. -/
theorem recordable_chunks : Recordable chunks Chunk.Allocated where
  act command c := by
    cases command with
    | write bytes line => exact (c.records_writeAll bytes line).map _
    | writeOpcode op line => exact (c.records_write op.byte line).map _
    | writeInstruction i line => exact (c.records_writeAll i.encode line).map _
    | addConstant v => exact (c.records_addConstant v).map _
    | addCount n => exact (c.records_addConstants _).map _
    | listing name limit =>
      exact records_written c _ ((Listing.records_write ⟨c, name⟩ _).fits trivial)
    | listAt offset limit =>
      exact records_written c (fun next text => .lineText text next.val)
        ((Listing.records_writeAt c offset (.fresh limit)).fits trivial)
    | print name =>
      exact records_written c _ ((Listing.records_write ⟨c, some name⟩ _).fits trivial)
    | printAt offset =>
      exact records_written c (fun next text => .lineText text next) (Listing.fits_printAt c offset)
    | code | lines | lineAt | lookup | constants | entries =>
      exact records_done forall_mem_nil_fits
  clone _ h := Chunk.fits_clone h
  free _ h := Chunk.fits_free h

/-! ## The two runs of a session -/

/-- A property of all objects at every stage of a session without a log. -/
def Throughout (k : Kind σ γ ρ) (P : σ → Prop) : List σ → List (Nat × Command γ) → Prop
  | objects, [] => ∀ s ∈ objects, P s
  | objects, (number, command) :: rest =>
    (∀ s ∈ objects, P s) ∧
      ∀ next ∈ step k false number command objects, Throughout k P next.2 rest

instance Throughout.decide [DecidablePred P] :
    ∀ objects steps, Decidable (Throughout k P objects steps)
  | objects, [] => inferInstanceAs (Decidable (∀ s ∈ objects, P s))
  | objects, (number, command) :: rest =>
    have : DecidablePred fun next : Record σ ρ × List σ => Throughout k P next.2 rest :=
      fun next => Throughout.decide next.2 rest
    inferInstanceAs (Decidable ((∀ s ∈ objects, P s) ∧
      ∀ next ∈ step k false number command objects, Throughout k P next.2 rest))

/-- What a step did, but for the log. -/
def Record.unlogged (r : Record σ ρ) : Record σ ρ := { r with log := [] }

/-- A session with a log does, at every step, what it does without one. -/
structure UnchangedByLog (k : Kind σ γ ρ) (P : σ → Prop) : Prop where
  /-- It gives the same replies, and leaves the same objects. -/
  play : ∀ objects steps, Throughout k P objects steps →
    (play k true objects steps).map (fun p => (p.1.map Record.unlogged, p.2)) =
      play k false objects steps
  /-- Its answer is the same, but for the lines of the log. -/
  run : ∀ objects steps, Throughout k P objects steps →
    (run k true objects steps).map (List.map Record.unlogged) = run k false objects steps

theorem Throughout.start {objects : List σ} {steps : List (Nat × Command γ)}
    (h : Throughout k P objects steps) : ∀ s ∈ objects, P s := by
  cases steps with
  | nil => exact h
  | cons s rest => exact h.1

/-- A property of every stage is one of every stage of what is left. -/
theorem Throughout.rest {objects objects' : List σ} {number : Nat} {command : Command γ}
    {rest : List (Nat × Command γ)} {record : Record σ ρ}
    (h : Throughout k P objects ((number, command) :: rest))
    (hs : step k false number command objects = some (record, objects')) :
    Throughout k P objects' rest :=
  h.2 _ hs

/-- The events of a command can be recorded, if the storage before and after it can be had. -/
theorem Recordable.fits_perform (h : Recordable k P) {object : σ} (others : Nat)
    (command : Command γ) (hbefore : P object)
    (hafter : P (perform k others object command).1.state) :
    ∀ e ∈ (perform k others object command).1.events, e.Fits := by
  cases command with
  | own command => exact (h.act command object).fits hafter
  | free => exact h.free object hbefore
  | clone => exact h.clone object hbefore
  | describe spread => exact forall_mem_nil_fits

/-- One step is the same with a log. -/
theorem Recordable.step_eq (h : Recordable k P) {objects : List σ} {number : Nat}
    {command : Command γ} (hbefore : ∀ s ∈ objects, P s)
    (hafter : ∀ record objects', step k false number command objects = some (record, objects') →
      ∀ s ∈ objects', P s) :
    (step k true number command objects).map (fun p => (p.1.unlogged, p.2)) =
      step k false number command objects := by
  cases hobject : objects[number]? with
  | none => simp [step, hobject]
  | some object =>
    have hnothing : record false (perform k objects.length object command).1.events = .ok [] := rfl
    have hsilent := step_of_recorded command hobject hnothing
    obtain ⟨hlt, -⟩ := List.getElem?_eq_some_iff.1 hobject
    have hstate := hafter _ _ hsilent _ (List.mem_append_left _ (List.mem_set hlt _))
    obtain ⟨lines, hlines⟩ := exists_record true
      (h.fits_perform objects.length command (hbefore object (List.mem_of_getElem? hobject)) hstate)
    rw [hsilent, step_of_recorded command hobject hlines]
    rfl

/-- **The two runs of a session agree**, in their records and in the objects that they leave. -/
theorem Recordable.play_eq (h : Recordable k P) (objects : List σ)
    (steps : List (Nat × Command γ)) (hall : Throughout k P objects steps) :
    (play k true objects steps).map (fun p => (p.1.map Record.unlogged, p.2)) =
      play k false objects steps := by
  induction steps generalizing objects with
  | nil => rfl
  | cons s rest ih =>
    obtain ⟨number, command⟩ := s
    have hafter : ∀ record objects', step k false number command objects =
        some (record, objects') → ∀ s ∈ objects', P s :=
      fun _ _ hs => (hall.rest hs).start
    have hstep := h.step_eq hall.start hafter
    cases hlogged : step k true number command objects with
    | none =>
      rw [hlogged] at hstep
      simp only [play, hlogged, ← hstep]
      rfl
    | some next =>
      obtain ⟨record, objects'⟩ := next
      rw [hlogged] at hstep
      have hsilent := hstep.symm
      have hrest := ih objects' (hall.rest hsilent)
      rw [play_cons hlogged, play_cons hsilent, ← hrest, Option.map_map, Option.map_map]
      rfl

/-- What agrees stage by stage agrees in the answers of the program. -/
theorem Recordable.unchangedByLog (h : Recordable k P) : UnchangedByLog k P where
  play := h.play_eq
  run objects steps hall := by
    calc (run k true objects steps).map (List.map Record.unlogged)
        = ((play k true objects steps).map fun p => (p.1.map Record.unlogged, p.2)).map
            Prod.fst := by
          rw [run_eq_play, Option.map_map, Option.map_map]
          rfl
      _ = run k false objects steps := by rw [h.play_eq objects steps hall, run_eq_play]

/-! ## A change of storage on its own -/

/-- Changes the storage of some elements, and tells the lines that a log gets. -/
def resize {α : Type} [Element α] (logged : Bool) (items : List α) (old new : Nat) :
    Except Overflow (List α × List Text) :=
  (record logged [Buffer.resized α old new]).map fun lines =>
    ((Buffer.resize items.toArray old new).toList, lines)

/-- What a change of storage comes to with a log, compared with one without. -/
structure ResizesAlike (α : Type) [Element α] (old new : Nat) : Prop where
  unlogged : ∀ items : List α,
    resize false items old new = .ok ((Buffer.resize items.toArray old new).toList, [])
  /-- With a log the elements are the same … -/
  of_fits : old * Element.bytes α < Size.bound ∧ new * Element.bytes α < Size.bound →
    ∀ items : List α,
      (resize true items old new).map Prod.fst = (resize false items old new).map Prod.fst
  /-- … unless one of the sizes does not fit in a machine word. -/
  of_overflow : Size.bound ≤ old * Element.bytes α ∨ Size.bound ≤ new * Element.bytes α →
    ∀ items : List α, ∃ reason : Overflow, resize true items old new = .error reason ∧
      reason.message = "attempt to multiply with overflow"

theorem record_resized_of_overflow {old new elementSize : Nat}
    (h : Size.bound ≤ old * elementSize ∨ Size.bound ≤ new * elementSize) :
    (Event.resized old new elementSize).record = .error .multiply := by
  by_cases hold : old * elementSize < Size.bound
  · have hnew : ¬ new * elementSize < Size.bound := by omega
    simp [Event.record, Event.message, Size.multiply, hold, hnew, bind, Except.bind, Except.map]
  · simp [Event.record, Event.message, Size.multiply, hold, bind, Except.bind, Except.map]

/-- The sizes of a change of storage are worked out for the log alone. -/
theorem resizesAlike (α : Type) [Element α] (old new : Nat) : ResizesAlike α old new where
  unlogged items := rfl
  of_fits h items := by
    have hfits : ∀ e ∈ [Buffer.resized α old new], e.Fits := by
      intro e he
      rw [List.mem_singleton.1 he]
      exact h
    obtain ⟨lines, hlines⟩ := exists_record true hfits
    rw [resize, resize, hlines]
    rfl
  of_overflow h items := by
    have hrecord : record true [Buffer.resized α old new] = .error .multiply := by
      simp only [record, if_true, List.mapM_cons, Buffer.resized, record_resized_of_overflow h]
      rfl
    exact ⟨.multiply, by rw [resize, hrecord]; rfl, rfl⟩

/-! ## All sessions -/

/-- **A log changes nothing** of what a session on buffers of any elements, on pools or on chunks
comes to, as long as the storage can be had.  A change of storage on its own has the same answer
with a log, unless the log cannot tell its sizes. -/
theorem unchangedByLog_sessions :
    (∀ (α : Type) [Element α], UnchangedByLog (buffers : Kind (Buffer α) _ _) Buffer.Allocated) ∧
    UnchangedByLog pools Pool.Allocated ∧ UnchangedByLog chunks Chunk.Allocated ∧
    ∀ (α : Type) [Element α] (old new : Nat), ResizesAlike α old new :=
  ⟨fun _ _ => recordable_buffers.unchangedByLog, recordable_pools.unchangedByLog,
    recordable_chunks.unchangedByLog, resizesAlike⟩

/-- A chunk that grows twice while its code is written, and a copy of it. -/
def growing : List (Nat × Command ChunkCommand) :=
  [(0, .own (.write (List.replicate 9 1) 5)), (0, .own (.addConstant .zero)), (0, .clone),
    (1, .free)]

/-- The log gets lines at every step, and the steps are those of a session without it. -/
theorem unchangedByLog_of_growing :
    Throughout chunks Chunk.Allocated [.empty] growing ∧
      (play chunks true [.empty] growing).map (fun p => p.1.map fun r => r.log.length) =
        some [6, 2, 3, 3] ∧
      (play chunks true [.empty] growing).map (fun p => (p.1.map Record.unlogged, p.2)) =
        play chunks false [.empty] growing ∧
      (run chunks true [.empty] growing).map (List.map Record.unlogged) =
        run chunks false [.empty] growing := by
  have hall : Throughout chunks Chunk.Allocated [.empty] growing := by decide
  exact ⟨hall, by decide +kernel, unchangedByLog_sessions.2.2.1.play _ _ hall,
    unchangedByLog_sessions.2.2.1.run _ _ hall⟩

end Session

end Bytecode
