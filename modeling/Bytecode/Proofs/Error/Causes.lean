import Bytecode.Error
import Mathlib.Data.List.Chain

/-!
# Chains of causes

The report of an error ends in the report of its cause, which ends in the report of the
next cause, and so on.  So the report of an error is made up of the headlines of the
errors that are met on the way along the causes, and a step on this way cuts the first
headline off.

* `AnyError.sources` — the errors that are met on the way along the causes.
* `AnyError.report_of_source` — a step on this way.
* `AnyError.report_eq_join` — the report is made up of the headlines.
* `ChunkError.sources_wrap`, `ChunkError.sources_causedByAll` — the causes of an error
  that was wrapped again and again, and of one that was given several causes.
* `ChunkError.chained_wrap` — both together, for the error of a full pool.
-/

namespace Bytecode

/-! ## Joined texts -/

namespace Text

theorem join_cons (separator first : Text) {rest : List Text} (h : rest ≠ []) :
    join separator (first :: rest) = first ++ separator ++ join separator rest :=
  List.intercalate_cons_of_ne_nil h

theorem join_concat (separator last : Text) {parts : List Text} (h : parts ≠ []) :
    join separator (parts ++ [last]) = join separator parts ++ (separator ++ last) := by
  induction parts with
  | nil => exact absurd rfl h
  | cons first rest ih =>
    have hmore : rest ++ [last] ≠ [] := List.append_ne_nil_of_right_ne_nil rest (by simp)
    rw [List.cons_append, join_cons separator first hmore]
    by_cases hrest : rest = []
    · simp [hrest, join]
    · rw [ih hrest, join_cons separator first hrest, List.append_assoc, List.append_assoc,
        List.append_assoc]

end Text

open Text

/-! ## Reports -/

theorem describe_none (title : Text) {message : Text} (h : message.isEmpty = false) :
    describe title message none = title ++ ": ".toList ++ message := by
  simp [describe, join, h]

theorem describe_some (title cause : Text) {message : Text} (h : message.isEmpty = false) :
    describe title message (some cause) =
      title ++ ": ".toList ++ message ++ ": ".toList ++ cause := by
  simp [describe, join, h]

theorem ChunkError.Kind.isEmpty_message (kind : ChunkError.Kind) :
    kind.message.isEmpty = false := by
  cases kind
  rfl

/-! ## Along the causes -/

namespace AnyError

/-- The error that caused this one; of an error that is known by its report, no cause is known. -/
def source : AnyError → Option AnyError
  | .other _ => none
  | .chunk e => e.source

@[simp] theorem source_chunk (e : ChunkError) : (AnyError.chunk e).source = e.source := rfl

/-- The report of an error but for that of its cause. -/
def headline : AnyError → Text
  | .other report => report
  | .chunk e => "chunk error".toList ++ ": ".toList ++ e.kind.message

theorem sizeOf_source_lt {e cause : AnyError} (h : e.source = some cause) :
    sizeOf cause < sizeOf e := by
  match e with
  | .other _ => cases h
  | .chunk (.bare _) => cases h
  | .chunk (.causedByReport _ report) =>
    cases h
    simp +arith
  | .chunk (.causedByChunk _ inner) =>
    cases h
    simp +arith

/-- The errors that are met on the way from an error along its causes. -/
def sources (e : AnyError) : List AnyError :=
  match _h : e.source with
  | none => []
  | some cause => cause :: cause.sources
termination_by e
decreasing_by exact sizeOf_source_lt _h

theorem sources_of_none {e : AnyError} (h : e.source = none) : e.sources = [] := by
  rw [sources]
  split
  · rfl
  · rename_i cause hcause
    rw [h] at hcause
    cases hcause

theorem sources_of_some {e cause : AnyError} (h : e.source = some cause) :
    e.sources = cause :: cause.sources := by
  rw [sources]
  split
  · rename_i hnone
    rw [h] at hnone
    cases hnone
  · rename_i other hother
    rw [h] at hother
    cases hother
    rfl

/-- An error without a cause is reported by its headline. -/
theorem report_of_none {e : AnyError} (h : e.source = none) : e.report = e.headline := by
  match e with
  | .other _ => rfl
  | .chunk (.bare kind) => exact describe_none _ kind.isEmpty_message

/-- A step along the causes cuts the headline off. -/
theorem report_of_source {e cause : AnyError} (h : e.source = some cause) :
    e.report = e.headline ++ ": ".toList ++ cause.report := by
  match e with
  | .other _ => cases h
  | .chunk (.bare _) => cases h
  | .chunk (.causedByReport kind report) =>
    cases h
    exact describe_some _ report kind.isEmpty_message
  | .chunk (.causedByChunk kind inner) =>
    cases h
    exact describe_some _ inner.report kind.isEmpty_message

/-- The report of an error is made up of the headlines along its causes. -/
theorem report_eq_join (e : AnyError) :
    e.report = join ": ".toList ((e :: e.sources).map headline) := by
  fun_induction sources e with
  | case1 e h =>
    rw [report_of_none h]
    simp [join]
  | case2 e cause h ih =>
    rw [report_of_source h, ih]
    exact (join_cons _ _ (by simp)).symm

/-- The errors on the way are the causes of each other. -/
theorem isChain_sources (e : AnyError) :
    (e :: e.sources).IsChain fun outer inner => outer.source = some inner := by
  fun_induction sources e with
  | case1 e h => exact List.isChain_singleton _
  | case2 e cause h ih => exact List.isChain_cons_cons.2 ⟨h, ih⟩

end AnyError

/-! ## Wrapping, and giving several causes -/

namespace ChunkError

/-- The errors that are met first on the way along the causes of a wrapped one. -/
def wrapped (kind : Kind) (depth : Nat) (e : ChunkError) : List ChunkError :=
  (List.range depth).reverse.map fun k => wrap kind k e

theorem length_wrapped (kind : Kind) (depth : Nat) (e : ChunkError) :
    (wrapped kind depth e).length = depth := by
  simp [wrapped]

theorem sources_wrap (kind : Kind) (depth : Nat) (e : ChunkError) :
    (AnyError.chunk (wrap kind depth e)).sources =
      (wrapped kind depth e).map .chunk ++ (AnyError.chunk e).sources := by
  induction depth with
  | zero => rfl
  | succ depth ih =>
    have hstep : (AnyError.chunk (wrap kind (depth + 1) e)).source =
        some (.chunk (wrap kind depth e)) := rfl
    rw [AnyError.sources_of_some hstep, ih, wrapped, wrapped, List.range_succ]
    simp

theorem causedByAll_concat (e : ChunkError) (causes : List Text) (last : Text) :
    e.causedByAll (causes ++ [last]) = (e.causedByAll causes).causedBy (.other last) := by
  simp [causedByAll]

/-- Of several causes, the last one counts. -/
theorem sources_causedByAll (kind : Kind) (causes : List Text) :
    (AnyError.chunk ((bare kind).causedByAll causes)).sources =
      (causes.getLast?.map .other).toList := by
  rcases List.eq_nil_or_concat causes with rfl | ⟨before, last, rfl⟩
  · exact AnyError.sources_of_none rfl
  · have hsource : (AnyError.chunk ((bare kind).causedByAll (before ++ [last]))).source =
        some (.other last) := by
      rw [AnyError.source_chunk, causedByAll_concat, source_causedBy]
    rw [List.concat_eq_append, AnyError.sources_of_some hsource,
      AnyError.sources_of_none (e := .other last) rfl, List.getLast?_concat]
    rfl

/-! ## The error of a full pool -/

/-- The headline of the error of a full pool. -/
def poolLimitHeadline : Text := "chunk error: constant pool limit reached".toList

theorem headline_eq (e : ChunkError) : (AnyError.chunk e).headline = poolLimitHeadline := by
  have hkind (kind : Kind) :
      "chunk error".toList ++ ": ".toList ++ kind.message = poolLimitHeadline := by
    cases kind
    rfl
  exact hkind e.kind

theorem map_headline_chunk (es : List ChunkError) :
    (es.map AnyError.chunk).map AnyError.headline = List.replicate es.length poolLimitHeadline := by
  rw [List.map_map, List.map_eq_replicate_iff]
  exact fun e _ => headline_eq e

/-- A step along the causes cuts the headline of a full pool off. -/
theorem report_of_source_eq {outer inner : AnyError} (h : outer.source = some inner) :
    outer.report = "chunk error: constant pool limit reached: ".toList ++ inner.report := by
  match outer with
  | .other _ => cases h
  | .chunk e =>
    rw [AnyError.report_of_source h, headline_eq]
    exact congrArg (· ++ inner.report) rfl

/-- What is known of an error of a full pool that was given some causes one after the other, and was
then made the cause of another such error, and so on to some depth. -/
structure Chained (causes : List Text) (depth : Nat) (e : ChunkError) : Prop where
  /-- The headline stands once for each of these errors, and the last cause behind them. -/
  report : e.report =
    join ": ".toList
        (List.replicate (depth + 1) "chunk error: constant pool limit reached".toList) ++
      match causes.getLast? with
      | none => []
      | some last => ": ".toList ++ last
  /-- The way along the causes passes as many errors of the same kind, and ends at the last cause
  that was given. -/
  sources : ∃ passed : List ChunkError, passed.length = depth ∧
    (∀ inner ∈ passed, inner.kind = e.kind) ∧
    (AnyError.chunk e).sources = passed.map .chunk ++ (causes.getLast?.map .other).toList
  /-- Each step of the way cuts the headline off the report. -/
  step : (AnyError.chunk e :: (AnyError.chunk e).sources).IsChain fun outer inner =>
    outer.report = "chunk error: constant pool limit reached: ".toList ++ inner.report

/-- The report is the headlines on the way, and behind them the error that ends it. -/
theorem report_of_sources {e : ChunkError} {passed : List ChunkError} {last : Option Text}
    (h : (AnyError.chunk e).sources = passed.map .chunk ++ (last.map .other).toList) :
    e.report = join ": ".toList
      (List.replicate (passed.length + 1) poolLimitHeadline ++ last.toList) := by
  have hlast : (last.map AnyError.other).toList.map AnyError.headline = last.toList := by
    cases last <;> rfl
  have hjoin := AnyError.report_eq_join (.chunk e)
  rwa [h, List.map_cons, List.map_append, map_headline_chunk, hlast, headline_eq,
    ← List.cons_append, ← List.replicate_succ] at hjoin

/-- **The report of an error tells its causes**: a chain of any depth is reported by one headline
for each error and the last cause of the innermost one, and a step along the causes cuts one
headline off. -/
theorem chained_wrap (causes : List Text) (depth : Nat) :
    Chained causes depth (wrap .poolLimit depth ((bare .poolLimit).causedByAll causes)) := by
  have hlength := length_wrapped .poolLimit depth ((bare .poolLimit).causedByAll causes)
  have hsources := sources_wrap .poolLimit depth ((bare .poolLimit).causedByAll causes)
  rw [sources_causedByAll] at hsources
  constructor
  case report =>
    rw [report_of_sources hsources, hlength]
    cases causes.getLast? with
    | none => exact (congrArg _ (List.append_nil _)).trans (List.append_nil _).symm
    | some last => exact join_concat _ _ (by simp)
  case sources =>
    refine ⟨_, hlength, ?_, hsources⟩
    intro inner _
    -- there is one kind only
    cases inner.kind
    rfl
  case step => exact (AnyError.isChain_sources _).imp fun _ _ => report_of_source_eq

end ChunkError

end Bytecode
