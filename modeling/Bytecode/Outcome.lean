import Bytecode.Value

/-!
# Outcomes

An operation on an object leaves three things: its reply, or the reason why there is
none; the object; and the events on the way.  A reason for no reply does not undo what
happened before it.

Counts, capacities and offsets are natural numbers that fit in a machine word.
Arithmetic on them is exact, and a step whose answer does not fit is the usual reason
for no reply.  An event carries the numbers behind its message, and the message is
worked out only when it is written to a log: the sizes in bytes are products that need
not fit in a machine word.

* `Size.add_eq_ok_iff`, `Size.multiply_eq_ok_iff` — a step has an answer iff the answer
  fits.
* `Event.record` — the line of a log, or the overflow met on the way to it;
  `Event.record_isOk_iff` says when there is one.
* `Outcome.andThen` — goes on with another operation, unless the first one has no reply.
* `Outcome.within` — an operation on a part, as one on the whole.
-/

namespace Bytecode

/-! ## Sizes -/

/-- The arithmetic step whose answer does not fit in a machine word. -/
inductive Overflow where
  | add
  | multiply
deriving Repr, DecidableEq

/-- The words in which an overflow is reported. -/
def Overflow.message : Overflow → String
  | .add => "attempt to add with overflow"
  | .multiply => "attempt to multiply with overflow"

namespace Size

/-- Every size is below this bound: a machine word has 64 bits. -/
def bound : Nat := 0x10000000000000000

/-- The sum of two sizes. -/
def add (a b : Nat) : Except Overflow Nat :=
  if a + b < bound then .ok (a + b) else .error .add

/-- The product of two sizes. -/
def multiply (a b : Nat) : Except Overflow Nat :=
  if a * b < bound then .ok (a * b) else .error .multiply

/-- There is a sum iff it fits in a machine word. -/
theorem add_eq_ok_iff {a b c : Nat} : add a b = .ok c ↔ a + b < bound ∧ c = a + b := by
  grind [add]

theorem add_eq_error_iff {a b : Nat} {e : Overflow} :
    add a b = .error e ↔ bound ≤ a + b ∧ e = .add := by
  grind [add]

/-- There is a product iff it fits in a machine word. -/
theorem multiply_eq_ok_iff {a b c : Nat} :
    multiply a b = .ok c ↔ a * b < bound ∧ c = a * b := by
  grind [multiply]

end Size

/-! ## Events -/

/-- Something worth a line in a log. -/
inductive Event where
  /-- Storage for `old` elements became storage for `new` elements. -/
  | resized (old new elementSize : Nat)
  /-- The code of a chunk got more storage. -/
  | chunkGrew (old new : Nat)
  | constantAdded (value : Value) (id : UInt8)
  /-- An instruction names a constant that its pool of `count` constants does not hold. -/
  | constantMissing (id : UInt8) (count : Nat)
deriving Repr, DecidableEq

namespace Event

/-- The word in front of a message: how much detail a reader of the log asks for to see it. -/
def level : Event → Text
  | .resized .. | .constantMissing .. => "DEBUG".toList
  | .chunkGrew .. | .constantAdded .. => "TRACE".toList

/-- The message of an event. -/
def message : Event → Except Overflow Text
  | .resized old new elementSize => do
    let oldBytes ← Size.multiply old elementSize
    let newBytes ← Size.multiply new elementSize
    return "reallocate ".toList ++ Text.decimal oldBytes ++ " -> ".toList ++
      Text.decimal newBytes ++ " bytes (".toList ++ Text.decimal elementSize ++
      " byte elements)".toList
  | .chunkGrew old new =>
    return "chunk grew from ".toList ++ Text.decimal old ++ " to ".toList ++ Text.decimal new ++
      " bytes".toList
  | .constantAdded value id =>
    return "add constant ".toList ++ value.text ++ " at index ".toList ++ Text.decimal id.toNat
  | .constantMissing id count =>
    return "constant index ".toList ++ Text.decimal id.toNat ++ " out of range (".toList ++
      Text.decimal count ++ " constants)".toList

/-- The line of a log for an event. -/
def record (e : Event) : Except Overflow Text :=
  e.message.map fun text => e.level ++ ' ' :: text

/-- Whether the sizes that an event speaks of fit in a machine word. -/
def Fits : Event → Prop
  | .resized old new elementSize =>
    old * elementSize < Size.bound ∧ new * elementSize < Size.bound
  | _ => True

/-- An event can be written to a log iff the sizes that it speaks of fit. -/
theorem record_isOk_iff (e : Event) : (∃ line, e.record = .ok line) ↔ e.Fits := by
  cases e with
  | resized old new s =>
    simp only [record, message, Fits]
    by_cases hold : old * s < Size.bound <;> by_cases hnew : new * s < Size.bound <;>
      simp [Size.multiply, hold, hnew, bind, Except.bind, Except.map, pure, Except.pure]
  | _ => simp [record, message, Fits, Except.map, pure, Except.pure]

end Event

/-! ## Outcomes -/

/-- What an operation on a `σ` leaves. -/
structure Outcome (ε σ ρ : Type) where
  /-- The reply, or why there is none. -/
  reply : Except ε ρ
  /-- The object afterwards. -/
  state : σ
  /-- What happened, in order. -/
  events : List Event

namespace Outcome

variable {ε σ τ ρ ρ' : Type}

/-- An operation that is done. -/
@[inline] def done (state : σ) (reply : ρ) (events : List Event) : Outcome ε σ ρ :=
  ⟨.ok reply, state, events⟩

/-- An operation that stops without a reply. -/
@[inline] def stop (state : σ) (reason : ε) (events : List Event) : Outcome ε σ ρ :=
  ⟨.error reason, state, events⟩

/-- Goes on with `next`, unless there is no reply to go on from. -/
@[inline] def andThen (o : Outcome ε σ ρ) (next : ρ → σ → Outcome ε σ ρ') : Outcome ε σ ρ' :=
  match o with
  | ⟨.error e, s, events⟩ => ⟨.error e, s, events⟩
  | ⟨.ok r, s, events⟩ =>
    let p := next r s
    ⟨p.reply, p.state, events ++ p.events⟩

/-- Changes the reply. -/
@[inline] def map (f : ρ → ρ') (o : Outcome ε σ ρ) : Outcome ε σ ρ' :=
  ⟨o.reply.map f, o.state, o.events⟩

/-- Puts the object back into the whole that it is a part of. -/
@[inline] def within (whole : σ → τ) (o : Outcome ε σ ρ) : Outcome ε τ ρ :=
  ⟨o.reply, whole o.state, o.events⟩

/-- Behind an operation that is done, its events come first. -/
@[simp] theorem andThen_done (s : σ) (r : ρ) (events : List Event)
    (next : ρ → σ → Outcome ε σ ρ') :
    (done s r events).andThen next =
      ⟨(next r s).reply, (next r s).state, events ++ (next r s).events⟩ := rfl

theorem andThen_of_ok {o : Outcome ε σ ρ} {r : ρ} (next : ρ → σ → Outcome ε σ ρ')
    (h : o.reply = .ok r) :
    o.andThen next =
      ⟨(next r o.state).reply, (next r o.state).state, o.events ++ (next r o.state).events⟩ := by
  obtain ⟨reply, state, events⟩ := o
  cases h
  rfl

/-- Without a reply nothing else happens. -/
theorem andThen_of_error {o : Outcome ε σ ρ} {e : ε} (next : ρ → σ → Outcome ε σ ρ')
    (h : o.reply = .error e) : o.andThen next = ⟨.error e, o.state, o.events⟩ := by
  obtain ⟨reply, state, events⟩ := o
  cases h
  rfl

end Outcome

end Bytecode
