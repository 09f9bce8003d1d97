import Bytecode.Outcome
import Bytecode.Text.Tree

/-!
# Sessions

A session works on numbered objects of one kind.  It starts with one object, under the
number 0; every copy that is made gets the next number.  Each step works on one object,
and its record tells the reply, the object afterwards and, if a log is kept, the lines
that the log got.

* `Session.step` — one step.
* `Session.run` — all steps, as long as each one names an object that is there.
-/

namespace Bytecode

/-- A step: a command of the kind of object, or one that all kinds know. -/
inductive Session.Command (γ : Type) where
  | own (command : γ)
  | free
  | clone
  /-- Asks for a description, spread out over lines or not. -/
  | describe (spread : Bool)
deriving Repr

/-- The reply to a step. -/
inductive Session.Reply (ρ : Type) where
  | own (reply : ρ)
  | freed
  /-- The number of the copy. -/
  | cloned (number : Nat)
  | description (text : Text)
deriving Repr

/-- A kind of object, with its own commands `γ` and replies `ρ`. -/
structure Session.Kind (σ γ ρ : Type) where
  act : γ → σ → Outcome Overflow σ ρ
  clone : σ → σ × List Event
  free : σ → σ × List Event
  tree : σ → Text.Tree

/-- What one step did. -/
structure Session.Record (σ ρ : Type) where
  /-- The reply, or the overflow that there was instead of one. -/
  reply : Except Overflow (Session.Reply ρ)
  /-- The object that the step worked on, afterwards. -/
  state : σ
  /-- The lines that the log got. -/
  log : List Text

namespace Session

variable {σ γ ρ : Type}

/-- Carries out a command on an object; a copy goes to the end of the other objects. -/
def perform (k : Kind σ γ ρ) (others : Nat) (object : σ) :
    Command γ → Outcome Overflow σ (Reply ρ) × Option σ
  | .own command => ((k.act command object).map .own, none)
  | .free =>
    let (freed, events) := k.free object
    (.done freed .freed events, none)
  | .clone =>
    let (copy, events) := k.clone object
    (.done object (.cloned others) events, some copy)
  | .describe spread => (.done object (.description ((k.tree object).text spread)) [], none)

/-- The lines that a log gets; without a log, no event is looked at. -/
def record (logged : Bool) (events : List Event) : Except Overflow (List Text) :=
  if logged then events.mapM Event.record else .ok []

/-- Carries out a step. A step whose events cannot be recorded leaves all objects as they are. -/
def step (k : Kind σ γ ρ) (logged : Bool) (number : Nat) (command : Command γ)
    (objects : List σ) : Option (Record σ ρ × List σ) :=
  objects[number]?.map fun object =>
    let (outcome, copy) := perform k objects.length object command
    match record logged outcome.events with
    | .error e => (⟨.error e, object, []⟩, objects)
    | .ok lines =>
      (⟨outcome.reply, outcome.state, lines⟩, objects.set number outcome.state ++ copy.toList)

/-- Carries out steps, each on the object of the given number. -/
def run (k : Kind σ γ ρ) (logged : Bool) (objects : List σ) :
    List (Nat × Command γ) → Option (List (Record σ ρ))
  | [] => some []
  | (number, command) :: rest => do
    let (record, objects) ← step k logged number command objects
    let records ← run k logged objects rest
    return record :: records

end Session

end Bytecode
