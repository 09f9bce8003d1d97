import Bytecode.Proofs.CommandLine.Building
import Bytecode.Proofs.Integer.Numerals

/-!
# All of the arguments, or the first fault

The texts that a chunk is built from are read one after the other: the line, the
constants, the bytes.  Each text is good or bad on its own and by its place, so the
building is told without running it: it succeeds iff no text is bad, and otherwise
the report is about the first that is, whatever stands behind it.

* `CommandLine.parts` — the texts in the order in which they are read.
* `CommandLine.Part.complaint?` — what is wrong with a text, in words.
* `CommandLine.build_eq_error_iff` — what the building ends with is the first fault.
* `CommandLine.AllOrFirst` — what the arguments say about the chunk, or about the
  report.
* `CommandLine.allOrFirst_build` — the building goes by that.
-/

namespace Bytecode.CommandLine

/-! ## Faults -/

section Faults

variable {ε α β : Type} {x : Except ε α} {e : ε}

/-- The error that an answer is, if it is one. -/
def errorOf : Except ε α → Option ε
  | .ok _ => none
  | .error e => some e

@[simp] theorem errorOf_eq_some_iff : errorOf x = some e ↔ x = .error e := by
  cases x <;> simp [errorOf]

theorem errorOf_map (f : α → β) : errorOf (x.map f) = errorOf x := by
  cases x <;> rfl

/-- Where a second step fails alike after all answers to the first, the first error of the two is
that of the first step, or else that of the second. -/
theorem errorOf_bind {f : α → Except ε β} {second : Option ε} (h : ∀ a, errorOf (f a) = second) :
    errorOf (x.bind f) = (errorOf x).or second := by
  cases x with
  | error e => rfl
  | ok a => exact h a

end Faults

/-- What goes wrong when texts are taken in behind `n` others is what is wrong with the first of
them that is not taken in its place. -/
theorem Intake.errorOf_takeAll {φ β : Type} (r : Intake φ β) (n : Nat) (texts : List Text) :
    errorOf (r.takeAll n texts) =
      (texts.zipIdx n).findSome? fun p => errorOf (r.take p.2 p.1) := by
  induction texts generalizing n with
  | nil => rfl
  | cons t rest ih =>
    rw [takeAll_cons, errorOf_bind fun b => (errorOf_map _).trans (ih (n + 1)), List.zipIdx_cons,
      List.findSome?_cons]
    cases errorOf (r.take n t) <;> rfl

/-! ## The texts in reading order -/

/-- A text that a chunk is built from.  Constants and bytes are counted from zero. -/
inductive Part where
  | line (text : Text)
  | constant (index : Nat) (text : Text)
  | byte (index : Nat) (text : Text)
deriving Repr, DecidableEq

/-- The texts in the order in which they are read: the line, the constants from left to right, the
bytes from left to right. -/
def parts (a : Arguments) : List Part :=
  a.line.toList.map .line ++ (a.constants.zipIdx.map fun p => .constant p.2 p.1) ++
    a.bytes.zipIdx.map fun p => .byte p.2 p.1

/-- What is wrong with a text, in words.  A constant that cannot be read is reported as such even
where there is no room for it. -/
def Part.complaint? : Part → Option Text
  | .line t =>
    match Integer.readInt32 t with
    | .ok _ => none
    | .error fault => some ("Invalid line \"".toList ++ t ++ "\": ".toList ++
        fault.message.toList ++ ".".toList)
  | .constant i t =>
    match Value.read t with
    | .ok _ =>
      if i < 256 then none
      else some ("Could not add constant \"".toList ++ t ++ "\": ".toList ++
        "chunk error: constant pool limit reached: ".toList ++
        "out of range integral type conversion attempted".toList ++ ".".toList)
    | .error fault => some ("Invalid constant \"".toList ++ t ++ "\": ".toList ++
        fault.message.toList ++ ".".toList)
  | .byte i t =>
    match Integer.readByte t with
    | .ok _ =>
      if i < Buffer.sizeLimit then none else some "attempt to multiply with overflow".toList
    | .error fault => some ("Invalid byte \"".toList ++ t ++ "\": ".toList ++
        fault.message.toList ++ ".".toList)

/-- The error that the building ends with at a text, if it gets there. -/
def Part.fault? : Part → Option BuildError
  | .line t => errorOf (readLine (some t))
  | .constant i t => errorOf (constantIntake.take i t)
  | .byte i t => errorOf (byteIntake.take i t)

theorem report_poolFull : Chunk.poolFull.report =
    "chunk error: constant pool limit reached: ".toList ++
      "out of range integral type conversion attempted".toList := rfl

theorem Part.complaint?_eq (p : Part) : p.complaint? = p.fault?.map BuildError.report := by
  cases p with
  | line t =>
    rw [complaint?, fault?, readLine]
    cases Integer.readInt32 t <;> rfl
  | constant i t =>
    rw [complaint?, fault?]
    cases hread : Value.read t with
    | error fault =>
      rw [Intake.take_of_unread (r := constantIntake) hread]
      rfl
    | ok v =>
      rcases Nat.lt_or_ge i 256 with hi | hi
      · rw [Intake.take_of_lt (r := constantIntake) hread hi]
        exact if_pos hi
      · rw [Intake.take_of_le (r := constantIntake) hread hi]
        refine (if_neg (Nat.not_lt.2 hi)).trans ?_
        show _ = some (complaint "Could not add constant" t Chunk.poolFull.report)
        rw [report_poolFull, complaint]
        simp
  | byte i t =>
    rw [complaint?, fault?]
    cases hread : Integer.readByte t with
    | error fault =>
      rw [Intake.take_of_unread (r := byteIntake) hread]
      rfl
    | ok b =>
      rcases Nat.lt_or_ge i Buffer.sizeLimit with hi | hi
      · rw [Intake.take_of_lt (r := byteIntake) hread hi]
        exact if_pos hi
      · rw [Intake.take_of_le (r := byteIntake) hread hi]
        exact if_neg (Nat.not_lt.2 hi)

/-- What the building ends with is the first fault in reading order. -/
theorem build_eq_error_iff {a : Arguments} {e : BuildError} :
    build a = .error e ↔ (parts a).findSome? Part.fault? = some e := by
  have hline : errorOf (readLine a.line) =
      (a.line.toList.map Part.line).findSome? Part.fault? := by
    cases a.line with
    | none => rfl
    | some t =>
      show errorOf (readLine (some t)) = List.findSome? Part.fault? [Part.line t]
      rw [List.findSome?_singleton]
      rfl
  rw [← errorOf_eq_some_iff, build_eq, errorOf_bind fun line => errorOf_bind fun constants =>
    errorOf_map _, Intake.errorOf_takeAll, Intake.errorOf_takeAll, hline, parts,
    List.findSome?_append, List.findSome?_append, List.findSome?_map, List.findSome?_map,
    List.findSome?_map, Option.or_assoc]
  rfl

/-! ## All or the first fault -/

section Traversal

variable {α β : Type} {R : α → β → Prop} {l : List α}

theorem exists_forall₂_iff : (∃ m, List.Forall₂ R l m) ↔ ∀ a ∈ l, ∃ b, R a b := by
  induction l with
  | nil => simp
  | cons a l ih =>
    rw [List.forall_mem_cons, ← ih]
    constructor
    · rintro ⟨m, h⟩
      cases h with
      | cons hb hm => exact ⟨⟨_, hb⟩, ⟨_, hm⟩⟩
    · rintro ⟨⟨b, hb⟩, ⟨m, hm⟩⟩
      exact ⟨b :: m, .cons hb hm⟩

theorem map_eq_map_of_forall₂ {γ : Type} {f : α → γ} {g : β → γ} {m : List β}
    (h : List.Forall₂ (fun a b => f a = g b) l m) : l.map f = m.map g := by
  induction h with
  | nil => rfl
  | cons hab _ ih => rw [List.map_cons, List.map_cons, hab, ih]

end Traversal

/-- The line is read iff the text that is given for it, if one is, spells an integer of 32 bits. -/
theorem exists_readLine_iff {text : Option Text} :
    (∃ line, readLine text = .ok line) ↔
      ∀ t, text = some t → ∃ i, Integer.IsInteger t i ∧ -0x80000000 ≤ i ∧ i < 0x80000000 := by
  cases text with
  | none => simp [readLine]
  | some t =>
    simp only [Option.some.injEq, forall_eq', ← Integer.exists_readInt32_iff, readLine]
    cases Integer.readInt32 t <;> simp [Except.mapError]

theorem readLine_some_eq_ok_iff {t : Text} {line : Int32} :
    readLine (some t) = .ok line ↔ Integer.IsInteger t line.toInt := by
  rw [← Integer.readInt32_eq_ok_iff, readLine]
  cases Integer.readInt32 t <;> simp [Except.mapError]

theorem exists_of_readLine_eq_error {text : Option Text} {e : BuildError}
    (h : readLine text = .error e) : ∃ t fault, text = some t ∧ e = .line t fault := by
  cases text with
  | none => contradiction
  | some t =>
    rw [readLine] at h
    cases hread : Integer.readInt32 t with
    | ok n => simp [hread, Except.mapError] at h
    | error fault =>
      rw [hread] at h
      cases h
      exact ⟨t, fault, rfl, rfl⟩

/-- What the arguments say about the chunk that is built from them, or about the report. -/
structure AllOrFirst (a : Arguments) : Prop where
  /-- There is a chunk iff every text is good and there is room for what they stand for.  The room
  for bytes ends where a buffer can double its storage no more. -/
  built : (∃ c, build a = .ok c) ↔
    (∀ t, a.line = some t → ∃ i, Integer.IsInteger t i ∧ -0x80000000 ≤ i ∧ i < 0x80000000) ∧
      (∀ t ∈ a.constants, ∃ v, Value.read t = .ok v) ∧ a.constants.length ≤ 256 ∧
        (∀ t ∈ a.bytes, ∃ b, Integer.readByte t = .ok b) ∧ a.bytes.length ≤ Buffer.sizeLimit
  /-- The chunk holds what the texts stand for, in their order, and nothing else. -/
  content : ∀ c, build a = .ok c → ∃ line : Int32,
    (a.line = none → line = 1) ∧ (∀ t, a.line = some t → Integer.IsInteger t line.toInt) ∧
      a.constants.map Value.read = c.constants.toList.map .ok ∧
        a.bytes.map Integer.readByte = c.code.toList.map .ok ∧
          c.lines.toList = List.replicate a.bytes.length line
  /-- The report is about the first text that is bad, and it stays the same whatever is put behind
  that text. -/
  refused : ∀ e, build a = .error e → ∃ before p after, parts a = before ++ p :: after ∧
    (∀ q ∈ before, q.complaint? = none) ∧ p.complaint? = some e.report ∧
      ∀ a', before ++ [p] <+: parts a' → build a' = .error e
  /-- A constant that is good but has no room is the one behind 256 good ones. -/
  full : ∀ t e, build a = .error (.pool t e) → (∃ v, Value.read t = .ok v) ∧
    ∃ before after, a.constants = before ++ t :: after ∧ before.length = 256 ∧
      ∀ s ∈ before, ∃ v, Value.read s = .ok v

section AllOrFirst

variable {a : Arguments}

theorem exists_build_iff :
    (∃ c, build a = .ok c) ↔
      (∀ t, a.line = some t → ∃ i, Integer.IsInteger t i ∧ -0x80000000 ≤ i ∧ i < 0x80000000) ∧
        (∀ t ∈ a.constants, ∃ v, Value.read t = .ok v) ∧ a.constants.length ≤ 256 ∧
          (∀ t ∈ a.bytes, ∃ b, Integer.readByte t = .ok b) ∧
            a.bytes.length ≤ Buffer.sizeLimit := by
  simp only [build_eq_ok_iff, ← exists_readLine_iff, ← exists_forall₂_iff]
  constructor
  · rintro ⟨c, hconstants, hbytes, constants, line, bytes, -, hspells⟩
    exact ⟨⟨line, hspells.given⟩, ⟨_, hspells.constants⟩, hconstants, ⟨_, hspells.code⟩, hbytes⟩
  · rintro ⟨⟨line, hline⟩, ⟨constants, hconstants⟩, hroom, ⟨bytes, hbytes⟩, hroom'⟩
    refine ⟨filled constants line bytes, hroom, hroom', constants, line, bytes, rfl, hline, ?_, ?_,
      ?_⟩
    · simpa using hconstants
    · simpa using hbytes
    · simp

/-- The first fault, and that it is reported of all arguments that begin alike. -/
theorem exists_first_of_build_eq_error {e : BuildError} (h : build a = .error e) :
    ∃ before p after, parts a = before ++ p :: after ∧
      (∀ q ∈ before, q.complaint? = none) ∧ p.complaint? = some e.report ∧
        ∀ a', before ++ [p] <+: parts a' → build a' = .error e := by
  obtain ⟨before, p, after, hparts, hp, hbefore⟩ :=
    List.findSome?_eq_some_iff.1 (build_eq_error_iff.1 h)
  refine ⟨before, p, after, hparts, ?_, ?_, ?_⟩
  · intro q hq
    rw [Part.complaint?_eq, hbefore q hq]
    rfl
  · rw [Part.complaint?_eq, hp]
    rfl
  · rintro a' ⟨rest, hrest⟩
    rw [build_eq_error_iff, List.findSome?_eq_some_iff]
    exact ⟨before, p, rest, by rw [← hrest, List.append_assoc]; rfl, hp, hbefore⟩

theorem full_of_build_eq_pool {t : Text} {e : ChunkError}
    (h : build a = .error (.pool t e)) : (∃ v, Value.read t = .ok v) ∧
      ∃ before after, a.constants = before ++ t :: after ∧ before.length = 256 ∧
        ∀ s ∈ before, ∃ v, Value.read s = .ok v := by
  simp only [build_eq, bind_eq_error_iff, map_eq_error_iff] at h
  rcases h with h | ⟨line, -, h | ⟨vs, -, h⟩⟩
  · obtain ⟨s, fault, -, he⟩ := exists_of_readLine_eq_error h
    cases he
  · obtain ⟨before, s, after, vs, hconstants, hbefore, hs⟩ := Intake.takeAll_eq_error_iff.1 h
    obtain ⟨hread, hroom⟩ := (Intake.takeAll_eq_ok_iff (Nat.zero_le _)).1 hbefore
    rcases Intake.take_eq_error_iff.1 hs with ⟨fault, -, he⟩ | ⟨hgood, hfull, he⟩
    · cases he
    · cases he
      rw [Nat.zero_add] at hroom hfull
      exact ⟨hgood, before, after, hconstants, Nat.le_antisymm hroom hfull,
        exists_forall₂_iff.1 ⟨vs, hread⟩⟩
  · obtain ⟨before, s, after, bs, -, -, hs⟩ := Intake.takeAll_eq_error_iff.1 h
    rcases Intake.take_eq_error_iff.1 hs with ⟨fault, -, he⟩ | ⟨-, -, he⟩ <;> cases he

end AllOrFirst

/-- **A chunk is built from all of the arguments, or the first fault is reported.**  The texts are
good or bad on their own and by their places, and what stands behind a bad one plays no part. -/
theorem allOrFirst_build (a : Arguments) : AllOrFirst a := by
  constructor
  case built => exact exists_build_iff
  case content =>
    intro c h
    obtain ⟨-, -, _, line, _, -, hspells⟩ := build_eq_ok_iff.1 h
    refine ⟨line, ?_, ?_, map_eq_map_of_forall₂ hspells.constants,
      map_eq_map_of_forall₂ hspells.code, ?_⟩
    · intro hnone
      have hgiven := hspells.given
      rw [hnone] at hgiven
      exact (Except.ok.inj hgiven).symm
    · intro t ht
      exact readLine_some_eq_ok_iff.1 (ht ▸ hspells.given)
    · rw [hspells.lines, hspells.code.length_eq]
      rfl
  case refused =>
    intro e h
    exact exists_first_of_build_eq_error h
  case full =>
    intro t e h
    exact full_of_build_eq_pool h

-- The second constant and both bytes are bad, and the constant is the one reported.
example : build ⟨["1.5".toList, "one".toList], none, none, false, ["256".toList, "x".toList]⟩ =
    .error (.constant "one".toList .invalid) := rfl

end Bytecode.CommandLine
