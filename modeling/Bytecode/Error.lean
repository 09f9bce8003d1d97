import Bytecode.Text.Basic

/-!
# Errors and their causes

An error is reported by a title, an optional message and the report of the error that
caused it, joined by colons.  The error of a chunk can be caused by an error of any sort,
which is known by its report alone, or by another error of a chunk.

* `ChunkError.report` — the whole chain of causes in one line.
* `ChunkError.source` — one step along the chain; `ChunkError.source_causedBy` says that
  it leads to the cause that was given last.
-/

namespace Bytecode

/-- Joins a title, a message and the report of a cause; an empty message counts as none. -/
def describe (title message : Text) (cause : Option Text) : Text :=
  Text.join ": ".toList (title :: ((if message.isEmpty then [] else [message]) ++ cause.toList))

/-- What went wrong with a chunk. -/
inductive ChunkError.Kind where
  /-- There are more constants than an operand of one byte can name. -/
  | poolLimit
deriving Repr, DecidableEq

/-- The words in which a kind of error is reported. -/
def ChunkError.Kind.message : ChunkError.Kind → Text
  | .poolLimit => "constant pool limit reached".toList

/-- An error of a chunk, with what caused it. -/
inductive ChunkError where
  | bare (kind : ChunkError.Kind)
  /-- Caused by an error that is known by its report. -/
  | causedByReport (kind : ChunkError.Kind) (cause : Text)
  /-- Caused by an error of a chunk. -/
  | causedByChunk (kind : ChunkError.Kind) (cause : ChunkError)
deriving Repr, DecidableEq

/-- An error of any sort. -/
inductive AnyError where
  | other (report : Text)
  | chunk (error : ChunkError)
deriving Repr, DecidableEq

namespace ChunkError

/-- What went wrong. -/
def kind : ChunkError → Kind
  | .bare kind | .causedByReport kind _ | .causedByChunk kind _ => kind

/-- The same error with another cause. -/
def causedBy (e : ChunkError) : AnyError → ChunkError
  | .other report => .causedByReport e.kind report
  | .chunk cause => .causedByChunk e.kind cause

/-- The error that caused this one. -/
def source : ChunkError → Option AnyError
  | .bare _ => none
  | .causedByReport _ cause => some (.other cause)
  | .causedByChunk _ cause => some (.chunk cause)

/-- The report of an error, with that of its cause at the end. -/
def report : ChunkError → Text
  | .bare kind => describe "chunk error".toList kind.message none
  | .causedByReport kind cause => describe "chunk error".toList kind.message (some cause)
  | .causedByChunk kind cause => describe "chunk error".toList kind.message (some cause.report)

/-- The same error, given causes one after the other: each takes the place of the one before. -/
def causedByAll (e : ChunkError) (causes : List Text) : ChunkError :=
  causes.foldl (fun e cause => e.causedBy (.other cause)) e

/-- An error that is the cause of an error that is the cause of another, and so on. -/
def wrap (kind : Kind) : Nat → ChunkError → ChunkError
  | 0, e => e
  | depth + 1, e => (ChunkError.bare kind).causedBy (.chunk (wrap kind depth e))

/-- The cause that was given last is the one that counts. -/
theorem source_causedBy (e : ChunkError) (cause : AnyError) :
    (e.causedBy cause).source = some cause := by
  cases cause <;> rfl

end ChunkError

/-- The report of an error of any sort. -/
def AnyError.report : AnyError → Text
  | .other report => report
  | .chunk e => e.report

end Bytecode
