import Bytecode.CommandLine.Build
import Bytecode.Proofs.Chunk.Operations
import Mathlib.Data.List.Forall2

/-!
# Building a chunk from texts

The constants and the bytes of a chunk are built in the same way: each text is read,
and what it stands for is put behind what stands there already.  The first text that
cannot be read, or for which there is no room, ends the building.

* `CommandLine.Intake` — a way to read texts for a place with limited room.
* `CommandLine.Intake.takeAll_eq_ok_iff` — all texts are taken iff each can be read
  and there is room for them.
* `CommandLine.Intake.takeAll_eq_error_iff` — what is reported is what is wrong with
  the first text that is not taken.
* `CommandLine.addConstants_cons`, `CommandLine.writeBytes_cons` — one constant, and
  one byte, is taken so.
* `CommandLine.build_eq` — and therefore all of them, behind the line.
* `CommandLine.build_eq_ok_iff` — a chunk is built iff the arguments spell it and
  there is room for it.
-/

namespace Bytecode.CommandLine

/-! ## Answers and errors along the way -/

section Except

variable {ε α β : Type} {x : Except ε α} {e : ε} {b : β}

theorem bind_eq_ok_iff {f : α → Except ε β} : x.bind f = .ok b ↔ ∃ a, x = .ok a ∧ f a = .ok b := by
  cases x <;> simp [Except.bind]

theorem bind_eq_error_iff {f : α → Except ε β} :
    x.bind f = .error e ↔ x = .error e ∨ ∃ a, x = .ok a ∧ f a = .error e := by
  cases x <;> simp [Except.bind]

theorem map_eq_ok_iff {f : α → β} : x.map f = .ok b ↔ ∃ a, x = .ok a ∧ f a = b := by
  cases x <;> simp [Except.map]

theorem map_eq_error_iff {f : α → β} : x.map f = .error e ↔ x = .error e := by
  cases x <;> simp [Except.map]

end Except

/-! ## Taking texts in -/

/-- A way to read texts, and how much room there is for what they stand for. -/
structure Intake (φ β : Type) where
  read : Text → Except φ β
  limit : Nat
  /-- The report of a text that cannot be read. -/
  unread : Text → φ → BuildError
  /-- The report of a text that can be read, but for which there is no room. -/
  refused : Text → BuildError

namespace Intake

variable {φ β : Type} (r : Intake φ β)

/-- Takes a text in behind `n` others. -/
def take (n : Nat) (t : Text) : Except BuildError β :=
  match r.read t with
  | .error fault => .error (r.unread t fault)
  | .ok b => if n < r.limit then .ok b else .error (r.refused t)

/-- Takes texts in behind `n` others, up to the first that is not taken. -/
def takeAll (n : Nat) : List Text → Except BuildError (List β)
  | [] => .ok []
  | t :: rest => (r.take n t).bind fun b => (takeAll (n + 1) rest).map (b :: ·)

variable {r} {n : Nat} {t : Text} {texts : List Text} {e : BuildError}

theorem take_of_unread {fault : φ} (h : r.read t = .error fault) :
    r.take n t = .error (r.unread t fault) := by
  simp only [take, h]

theorem take_of_lt {b : β} (h : r.read t = .ok b) (hn : n < r.limit) : r.take n t = .ok b := by
  simp only [take, h, if_pos hn]

theorem take_of_le {b : β} (h : r.read t = .ok b) (hn : r.limit ≤ n) :
    r.take n t = .error (r.refused t) := by
  simp only [take, h, if_neg (Nat.not_lt.2 hn)]

theorem take_eq_ok_iff {b : β} : r.take n t = .ok b ↔ r.read t = .ok b ∧ n < r.limit := by
  cases h : r.read t with
  | error fault => simp [take_of_unread h]
  | ok b' =>
    by_cases hn : n < r.limit
    · simp [take_of_lt h hn, hn]
    · simp [take_of_le h (Nat.le_of_not_lt hn), hn]

/-- A text that cannot be read is reported as such, even if there is no room. -/
theorem take_eq_error_iff :
    r.take n t = .error e ↔ (∃ fault, r.read t = .error fault ∧ e = r.unread t fault) ∨
      (∃ b, r.read t = .ok b) ∧ r.limit ≤ n ∧ e = r.refused t := by
  cases h : r.read t with
  | error fault => simp [take_of_unread h, eq_comm]
  | ok b =>
    by_cases hn : n < r.limit
    · simp [take_of_lt h hn, hn]
    · simp [take_of_le h (Nat.le_of_not_lt hn), Nat.le_of_not_lt hn, eq_comm]

theorem takeAll_cons (rest : List Text) :
    r.takeAll n (t :: rest) =
      (r.take n t).bind fun b => (r.takeAll (n + 1) rest).map (b :: ·) := rfl

theorem takeAll_cons_of_ok {b : β} (rest : List Text) (h : r.take n t = .ok b) :
    r.takeAll n (t :: rest) = (r.takeAll (n + 1) rest).map (b :: ·) := by
  rw [takeAll_cons, h]
  rfl

theorem takeAll_cons_of_error (rest : List Text) (h : r.take n t = .error e) :
    r.takeAll n (t :: rest) = .error e := by
  rw [takeAll_cons, h]
  rfl

/-- All texts are taken iff each can be read and there is room for them. -/
theorem takeAll_eq_ok_iff {bs : List β} (hn : n ≤ r.limit) :
    r.takeAll n texts = .ok bs ↔
      List.Forall₂ (fun t b => r.read t = .ok b) texts bs ∧ n + texts.length ≤ r.limit := by
  induction texts generalizing n bs with
  | nil => cases bs <;> simp [takeAll, hn]
  | cons t rest ih =>
    simp only [takeAll_cons, bind_eq_ok_iff, map_eq_ok_iff, take_eq_ok_iff, List.length_cons]
    constructor
    · rintro ⟨b, ⟨hb, hlt⟩, bs, hrest, rfl⟩
      obtain ⟨hread, hroom⟩ := (ih hlt).1 hrest
      exact ⟨.cons hb hread, by omega⟩
    · rintro ⟨hread, hroom⟩
      cases hread with
      | cons hb hrest =>
        have hlt : n < r.limit := by omega
        exact ⟨_, ⟨hb, hlt⟩, _, (ih hlt).2 ⟨hrest, by omega⟩, rfl⟩

/-- What is reported is what is wrong with the first text that is not taken; nothing depends on the
texts behind it. -/
theorem takeAll_eq_error_iff :
    r.takeAll n texts = .error e ↔
      ∃ before t after bs, texts = before ++ t :: after ∧ r.takeAll n before = .ok bs ∧
        r.take (n + before.length) t = .error e := by
  induction texts generalizing n with
  | nil => simp [takeAll]
  | cons t rest ih =>
    have hshift : ∀ before : List Text, n + (before.length + 1) = n + 1 + before.length := by
      intro before
      omega
    simp only [takeAll_cons, bind_eq_error_iff, map_eq_error_iff, ih]
    constructor
    · rintro (ht | ⟨b, hb, before, t', after, bs, rfl, hbefore, ht'⟩)
      · exact ⟨[], t, rest, [], rfl, rfl, ht⟩
      · refine ⟨t :: before, t', after, b :: bs, rfl, ?_, ?_⟩
        · rw [takeAll_cons_of_ok before hb, hbefore]
          rfl
        · rw [List.length_cons, hshift]
          exact ht'
    · rintro ⟨before, t', after, bs, htexts, hbefore, ht'⟩
      cases before with
      | nil =>
        cases htexts
        exact .inl ht'
      | cons t before =>
        cases htexts
        obtain ⟨b, hb, hrest⟩ := bind_eq_ok_iff.1 hbefore
        obtain ⟨bs, hbs, -⟩ := map_eq_ok_iff.1 hrest
        rw [List.length_cons, hshift] at ht'
        exact .inr ⟨b, hb, before, t', after, bs, rfl, hbs, ht'⟩

/-- What takes texts in one by one, putting what they stand for behind what stands there already,
takes them all in. -/
theorem eq_takeAll {σ : Type} (load : σ → List Text → Except BuildError σ) (put : List β → σ)
    (hnil : ∀ bs, load (put bs) [] = .ok (put bs))
    (hcons : ∀ bs t rest, bs.length ≤ r.limit → load (put bs) (t :: rest) =
      (r.take bs.length t).bind fun b => load (put (bs ++ [b])) rest)
    {bs : List β} (h : bs.length ≤ r.limit) :
    load (put bs) texts = (r.takeAll bs.length texts).map fun more => put (bs ++ more) := by
  induction texts generalizing bs with
  | nil =>
    rw [hnil, takeAll, Except.map, List.append_nil]
  | cons t rest ih =>
    rw [hcons bs t rest h]
    cases htake : r.take bs.length t with
    | error e =>
      rw [takeAll_cons_of_error rest htake]
      rfl
    | ok b =>
      have hlt := (take_eq_ok_iff.1 htake).2
      rw [takeAll_cons_of_ok rest htake]
      show load (put (bs ++ [b])) rest = _
      rw [ih (Buffer.length_concat_le hlt), List.length_append, List.length_singleton]
      cases r.takeAll (bs.length + 1) rest with
      | error e => rfl
      | ok more => simp [Except.map]

end Intake

/-! ## Constants and bytes -/

/-- How the constants of a chunk are taken in. -/
def constantIntake : Intake Value.Fault Value where
  read := Value.read
  limit := Chunk.constantLimit
  unread := .constant
  refused t := .pool t Chunk.poolFull

/-- How the bytes of a chunk are taken in. -/
def byteIntake : Intake Integer.Fault UInt8 where
  read := Integer.readByte
  limit := Buffer.sizeLimit
  unread := .byte
  refused _ := .overflow .multiply

/-- A constant is put behind those that a chunk holds already. -/
theorem addConstants_cons (c : Chunk) (vs : List Value) (t : Text) (rest : List Text)
    (h : vs.length ≤ Chunk.constantLimit) :
    addConstants (c.withConstants vs) (t :: rest) =
      (constantIntake.take vs.length t).bind fun v =>
        addConstants (c.withConstants (vs ++ [v])) rest := by
  rw [addConstants]
  cases hread : Value.read t with
  | error fault =>
    rw [Intake.take_of_unread hread]
    rfl
  | ok v =>
    rcases Nat.lt_or_eq_of_le h with hlt | heq
    · rw [Intake.take_of_lt hread hlt]
      simp only [Chunk.addConstant_withConstants c v hlt, Outcome.done]
      rfl
    · have hfull : Chunk.constantLimit ≤ (c.withConstants vs).constants.size :=
        Nat.le_of_eq heq.symm
      rw [Intake.take_of_le hread hfull]
      simp only [Chunk.addConstant_of_full v hfull, Outcome.done]
      rfl

/-- A byte is put behind those that a chunk holds already, and gets the same line. -/
theorem writeBytes_cons (line : Int32) (constants : Pool) (bytes : List UInt8) (t : Text)
    (rest : List Text) (h : bytes.length ≤ Buffer.sizeLimit) :
    writeBytes line (.holding (bytes.map (·, line)) constants) (t :: rest) =
      (byteIntake.take bytes.length t).bind fun byte =>
        writeBytes line (.holding ((bytes ++ [byte]).map (·, line)) constants) rest := by
  rw [writeBytes]
  cases hread : Integer.readByte t with
  | error fault =>
    rw [Intake.take_of_unread hread]
    rfl
  | ok byte =>
    have hlength : (bytes.map (·, line)).length = bytes.length := List.length_map _
    rcases Nat.lt_or_eq_of_le h with hlt | heq
    · have hmap : (bytes ++ [byte]).map (·, line) = bytes.map (·, line) ++ [(byte, line)] :=
        List.map_append
      rw [Intake.take_of_lt hread hlt]
      simp only [Chunk.write_holding byte line (hlength.symm ▸ hlt), Outcome.done]
      rw [← hmap]
      rfl
    · rw [Intake.take_of_le hread (Nat.le_of_eq heq.symm)]
      simp only [Chunk.write_holding_full byte line (hlength.trans heq), Outcome.stop]
      rfl

/-! ## The chunk that is built -/

/-- The chunk that holds some constants, and some bytes that come from one line. -/
def filled (constants : List Value) (line : Int32) (bytes : List UInt8) : Chunk :=
  .holding (bytes.map (·, line)) ⟨.ofList constants⟩

section Filled

variable {constants : List Value} {line : Int32} {bytes : List UInt8}

@[simp] theorem toList_code_filled : (filled constants line bytes).code.toList = bytes := by
  simp [filled, Chunk.holding, Function.comp_def]

@[simp] theorem toList_lines_filled :
    (filled constants line bytes).lines.toList = List.replicate bytes.length line := by
  simp [filled, Chunk.holding, Function.comp_def]

@[simp] theorem toList_constants_filled :
    (filled constants line bytes).constants.toList = constants := rfl

@[simp] theorem size_filled : (filled constants line bytes).size = bytes.length := by
  simp [filled, Chunk.holding, Chunk.size]

end Filled

theorem addConstants_empty (texts : List Text) :
    addConstants .empty texts =
      (constantIntake.takeAll 0 texts).map fun vs => Chunk.empty.withConstants vs :=
  Intake.eq_takeAll addConstants Chunk.empty.withConstants (fun _ => rfl)
    (addConstants_cons .empty) (Nat.zero_le _)

theorem writeBytes_filled (line : Int32) (constants : List Value) (texts : List Text) :
    writeBytes line (filled constants line []) texts =
      (byteIntake.takeAll 0 texts).map (filled constants line) :=
  Intake.eq_takeAll (writeBytes line) (filled constants line) (fun _ => rfl)
    (writeBytes_cons line ⟨.ofList constants⟩) (Nat.zero_le _)

/-- The line is read first, then the constants, then the bytes. -/
theorem build_eq (a : Arguments) :
    build a = (readLine a.line).bind fun line =>
      (constantIntake.takeAll 0 a.constants).bind fun constants =>
        (byteIntake.takeAll 0 a.bytes).map (filled constants line) := by
  show ((readLine a.line).bind fun line =>
    (addConstants .empty a.constants).bind fun c => writeBytes line c a.bytes) = _
  congr
  funext line
  rw [addConstants_empty]
  cases constantIntake.takeAll 0 a.constants with
  | error e => rfl
  | ok constants => exact writeBytes_filled line constants a.bytes

/-- What the arguments say about the chunk that is built from them. -/
structure Spells (a : Arguments) (line : Int32) (c : Chunk) : Prop where
  given : readLine a.line = .ok line
  constants : List.Forall₂ (fun t v => Value.read t = .ok v) a.constants c.constants.toList
  code : List.Forall₂ (fun t b => Integer.readByte t = .ok b) a.bytes c.code.toList
  /-- All bytes come from the line. -/
  lines : c.lines.toList = List.replicate c.size line

/-- A chunk is built iff every text can be read and there is room for what they stand for. -/
theorem build_eq_ok_iff {a : Arguments} {c : Chunk} :
    build a = .ok c ↔
      a.constants.length ≤ Chunk.constantLimit ∧ a.bytes.length ≤ Buffer.sizeLimit ∧
        ∃ constants line bytes, c = filled constants line bytes ∧ Spells a line c := by
  have hconstants : ∀ vs, constantIntake.takeAll 0 a.constants = .ok vs ↔
      List.Forall₂ (fun t v => Value.read t = .ok v) a.constants vs ∧
        0 + a.constants.length ≤ Chunk.constantLimit := by
    intro vs
    exact Intake.takeAll_eq_ok_iff (Nat.zero_le _)
  have hbytes : ∀ bs, byteIntake.takeAll 0 a.bytes = .ok bs ↔
      List.Forall₂ (fun t b => Integer.readByte t = .ok b) a.bytes bs ∧
        0 + a.bytes.length ≤ Buffer.sizeLimit := by
    intro bs
    exact Intake.takeAll_eq_ok_iff (Nat.zero_le _)
  simp only [build_eq, bind_eq_ok_iff, map_eq_ok_iff, hconstants, hbytes, Nat.zero_add]
  constructor
  · rintro ⟨line, hline, vs, ⟨hvs, hroom⟩, bs, ⟨hbs, hroom'⟩, rfl⟩
    exact ⟨hroom, hroom', vs, line, bs, rfl, hline, hvs, by simpa using hbs, by simp⟩
  · rintro ⟨hroom, hroom', vs, line, bs, rfl, h⟩
    exact ⟨line, h.given, vs, ⟨h.constants, hroom⟩, bs, ⟨by simpa using h.code, hroom'⟩, rfl⟩

theorem readLine_ne_overflow (line : Option Text) (reason : Overflow) :
    readLine line ≠ .error (.overflow reason) := by
  cases line with
  | none => simp [readLine]
  | some t => cases h : Integer.readInt32 t <;> simp [readLine, h, Except.mapError]

/-- Only more bytes than a buffer takes make the building overflow. -/
theorem lt_length_of_build_overflow {a : Arguments} {reason : Overflow}
    (h : build a = .error (.overflow reason)) : Buffer.sizeLimit < a.bytes.length := by
  simp only [build_eq, bind_eq_error_iff, map_eq_error_iff] at h
  rcases h with h | ⟨line, -, h | ⟨vs, -, h⟩⟩
  · exact absurd h (readLine_ne_overflow a.line reason)
  · obtain ⟨before, t, after, vs, -, -, ht⟩ := Intake.takeAll_eq_error_iff.1 h
    rcases Intake.take_eq_error_iff.1 ht with ⟨fault, -, he⟩ | ⟨-, -, he⟩ <;> cases he
  · obtain ⟨before, t, after, bs, hbytes, -, ht⟩ := Intake.takeAll_eq_error_iff.1 h
    rcases Intake.take_eq_error_iff.1 ht with ⟨fault, -, he⟩ | ⟨-, hfull, -⟩
    · cases he
    · have hlimit : Buffer.sizeLimit ≤ 0 + before.length := hfull
      rw [hbytes, List.length_append, List.length_cons]
      omega

end Bytecode.CommandLine
