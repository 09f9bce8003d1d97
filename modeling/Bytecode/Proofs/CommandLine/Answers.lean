import Bytecode.CommandLine.Run
import Bytecode.Proofs.CommandLine.Building
import Bytecode.Proofs.Listing.Marks

/-!
# What the program answers

Arguments that are understood ask for a chunk, and the program prints its listing,
what is wrong with the arguments, or that there is nothing to list.  It never prints
two of these, and it ends well unless there are more bytes than a buffer takes.

* `CommandLine.printed` — the response of a program that prints a text and ends well.
* `CommandLine.present_eq` — a chunk is presented by its listing.
* `CommandLine.Answers` — what is printed for which arguments.
* `CommandLine.answers_run` — the program answers so to all arguments that are
  understood.
-/

namespace Bytecode.CommandLine

open Listing (text header marks onceMarked)

/-- The response of a program that prints a text and ends well. -/
def printed (t : Text) : Response := ⟨0, String.ofList t, none⟩

/-! ## Presenting a chunk -/

theorem isEmpty_code_iff {c : Chunk} : c.isEmpty = true ↔ c.code.toList = [] := by
  simp [Chunk.isEmpty, Buffer.isEmpty, Buffer.toList]

theorem isEmpty_constants_iff {c : Chunk} :
    c.constants.isEmpty = true ↔ c.constants.toList = [] := by
  simp [Pool.isEmpty, Pool.toList, Buffer.isEmpty, Buffer.toList]

theorem present_of_nil {c : Chunk} (name : Text) (hcode : c.code.toList = [])
    (hconstants : c.constants.toList = []) : present name c = printed "No input.\n".toList := by
  have hempty : c.isEmpty = true ∧ c.constants.isEmpty = true :=
    ⟨isEmpty_code_iff.2 hcode, isEmpty_constants_iff.2 hconstants⟩
  rw [present, if_pos hempty, printed, String.ofList_toList]

/-- A chunk that is not empty is presented by its listing, and the listing is complete. -/
theorem present_eq {c : Chunk} (name : Text) (hc : c.size < Size.bound)
    (h : c.code.toList ≠ [] ∨ c.constants.toList ≠ []) :
    present name c = printed (text ⟨c, some name⟩) := by
  have hnonempty : ¬ (c.isEmpty = true ∧ c.constants.isEmpty = true) := by
    rw [isEmpty_code_iff, isEmpty_constants_iff]
    tauto
  obtain ⟨events, hwrite⟩ := Listing.write_taken hc (some name)
  rw [present, if_neg hnonempty]
  simp only [Listing.print, printed, text, hwrite, Outcome.done, String.ofList_toList]

/-! ## The answers -/

section Answer

variable {a : Arguments}

/-- The sample loads the constant 1.2 and returns. -/
theorem demo_eq : demo = .ok (filled [Value.ofDecimal false ⟨12, -1⟩] demoLine [0, 0, 1]) := rfl

theorem answer_of_demo (h : a.demo = true) :
    answer a = present (a.name.getD defaultName)
      (filled [Value.ofDecimal false ⟨12, -1⟩] demoLine [0, 0, 1]) := by
  simp only [answer, h, if_true, demo_eq]

theorem answer_of_ok (h : a.demo = false) {c : Chunk} (hbuild : build a = .ok c) :
    answer a = present (a.name.getD defaultName) c := by
  simp only [answer, h, Bool.false_eq_true, if_false, hbuild]

theorem answer_of_overflow (h : a.demo = false) {reason : Overflow}
    (hbuild : build a = .error (.overflow reason)) : answer a = ⟨overflowStatus, "", none⟩ := by
  simp only [answer, h, Bool.false_eq_true, if_false, hbuild]

theorem answer_of_error (h : a.demo = false) {e : BuildError} (hbuild : build a = .error e)
    (he : ∀ reason, e ≠ .overflow reason) : answer a = printed (e.report ++ ['\n']) := by
  have hprinted : printed (e.report ++ ['\n']) = ⟨0, String.ofList e.report ++ "\n", none⟩ := by
    rw [printed, String.ofList_append]
  rw [hprinted]
  simp only [answer, h, Bool.false_eq_true, if_false, hbuild]

end Answer

/-- What the program answers to arguments that are understood. -/
structure Answers (a : Arguments) (r : Response) : Prop where
  /-- The sample is listed whatever else is asked for. -/
  demo : a.demo = true → ∃ c v, Value.read "1.2".toList = .ok v ∧ c.constants.toList = [v] ∧
    c.code.toList = [0, 0, 1] ∧ c.lines.toList = [123, 123, 123] ∧
    r = printed (text ⟨c, some (a.name.getD "code".toList)⟩)
  /-- What is wrong with the arguments is all that is printed. -/
  report : a.demo = false → ∀ e, build a = .error e → (∀ reason, e ≠ .overflow reason) →
    r = printed (e.report ++ ['\n'])
  nothing : a.demo = false → ∀ c, build a = .ok c → a.bytes = [] → a.constants = [] →
    r = printed "No input.\n".toList
  /-- The chunk is listed as the arguments spell it, and its line is shown once. -/
  listing : a.demo = false → ∀ c, build a = .ok c → a.bytes ≠ [] ∨ a.constants ≠ [] →
    ∃ line, Spells a line c ∧ r = printed (text ⟨c, some (a.name.getD "code".toList)⟩) ∧
      text ⟨c, some (a.name.getD "code".toList)⟩ =
        header (some (a.name.getD "code".toList)) ++ text ⟨c, none⟩ ∧
      marks (text ⟨c, none⟩) = onceMarked line.toInt c.entries.length
  /-- The one thing that is answered otherwise: more bytes than a buffer takes. -/
  overflow : a.demo = false → ∀ reason, build a = .error (.overflow reason) →
    Buffer.sizeLimit < a.bytes.length ∧ r = ⟨overflowStatus, "", none⟩

/-- Lists that match element by element are empty together. -/
theorem eq_nil_iff_of_forall₂ {α β : Type} {R : α → β → Prop} {l : List α} {m : List β}
    (h : List.Forall₂ R l m) : m = [] ↔ l = [] := by
  rw [← List.length_eq_zero_iff, ← List.length_eq_zero_iff, h.length_eq]

theorem answers_answer (a : Arguments) : Answers a (answer a) := by
  constructor
  case demo =>
    intro hdemo
    have hread : Value.read "1.2".toList = .ok (Value.ofDecimal false ⟨12, -1⟩) := rfl
    refine ⟨_, _, hread, toList_constants_filled, toList_code_filled, toList_lines_filled, ?_⟩
    rw [answer_of_demo hdemo]
    apply present_eq
    · simp [Size.bound]
    · simp
  case report =>
    intro hdemo e hbuild he
    exact answer_of_error hdemo hbuild he
  case nothing =>
    intro hdemo c hbuild hbytes hconstants
    obtain ⟨-, -, _, line, _, -, hspells⟩ := build_eq_ok_iff.1 hbuild
    rw [answer_of_ok hdemo hbuild]
    apply present_of_nil
    · exact (eq_nil_iff_of_forall₂ hspells.code).2 hbytes
    · exact (eq_nil_iff_of_forall₂ hspells.constants).2 hconstants
  case listing =>
    intro hdemo c hbuild hsome
    obtain ⟨-, hroom, _, line, _, -, hspells⟩ := build_eq_ok_iff.1 hbuild
    have hsize : c.size < Size.bound := by
      have hlength : a.bytes.length = c.size := hspells.code.length_eq
      rw [← hlength]
      exact Buffer.lt_bound_of_le_sizeLimit hroom
    refine ⟨line, hspells, ?_, ?_, Listing.marks_of_oneLine hsize hspells.lines⟩
    · rw [answer_of_ok hdemo hbuild]
      refine present_eq _ hsize ?_
      rwa [Ne, Ne, eq_nil_iff_of_forall₂ hspells.code, eq_nil_iff_of_forall₂ hspells.constants]
    · rw [Listing.text_eq hsize, Listing.text_eq hsize, Listing.header, Listing.header,
        List.nil_append]
  case overflow =>
    intro hdemo reason hbuild
    exact ⟨lt_length_of_build_overflow hbuild, answer_of_overflow hdemo hbuild⟩

/-- **The command line answers as the library does.**  To all arguments that are understood it
answers with a listing, or with what is wrong with them, and ends well; the exception are more bytes
than a buffer takes. -/
theorem answers_run {arguments : List Text} {a : Arguments} (h : parse arguments = .ok a) :
    Answers a (run arguments) := by
  have hrun : run arguments = answer a := by
    simp only [run, h]
  rw [hrun]
  exact answers_answer a

/-- A command line with a name, a constant, and bytes in both notations. -/
def words : List Text := ["-n", "x", "-k", "1.5", "0", "0x0", "1"].map String.toList

/-- What it asks for. -/
def asked : Arguments :=
  ⟨["1.5".toList], none, some "x".toList, false, ["0", "0x0", "1"].map String.toList⟩

/-- The words are understood, and the chunk that they spell is listed. -/
theorem answers_run_of_words :
    parse words = .ok asked ∧ run words =
      printed (text ⟨filled [Value.ofDecimal false ⟨15, -1⟩] 1 [0, 0, 1], some "x".toList⟩) := by
  have hparse : parse words = .ok asked := by decide
  have hbuild : build asked = .ok (filled [Value.ofDecimal false ⟨15, -1⟩] 1 [0, 0, 1]) := rfl
  obtain ⟨line, -, hrun, -⟩ := (answers_run hparse).listing rfl _ hbuild (.inl (by decide))
  exact ⟨hparse, hrun⟩

end Bytecode.CommandLine
