import Bytecode.Text.Basic
import Mathlib.Data.List.Basic

/-!
# Lines of text

A text is read as lines by cutting it behind each newline, and lines are written
by putting a newline behind each of them.

* `Text.lines`, `Text.ofLines` — reading and writing lines.
* `Text.lines_ofLines` — lines without newlines of their own are read back, so
  the text determines them.
* `Text.count_ofLines` — there are as many newlines as lines.
* `Text.ofLines_prefix` — the first lines make up the beginning of the text.
-/

namespace Bytecode.Text

/-- The text of some lines, each ended by a newline. -/
def ofLines (ls : List Text) : Text := ls.flatMap (· ++ ['\n'])

/-- The lines of a text. What stands behind the last newline is a line too, if there is anything. -/
def lines : Text → List Text
  | [] => []
  | c :: rest =>
    if c = '\n' then [] :: lines rest
    else
      match lines rest with
      | [] => [[c]]
      | l :: ls => (c :: l) :: ls

/-- A text up to its last line. -/
def withoutLastLine (t : Text) : Text := ofLines (lines t).dropLast

@[simp] theorem ofLines_nil : ofLines [] = [] := rfl

@[simp] theorem ofLines_cons (l : Text) (ls : List Text) :
    ofLines (l :: ls) = l ++ '\n' :: ofLines ls := by
  simp [ofLines]

theorem ofLines_append (ls ms : List Text) : ofLines (ls ++ ms) = ofLines ls ++ ofLines ms :=
  List.flatMap_append

/-- The first lines make up the beginning of the text. -/
theorem ofLines_prefix {ls ms : List Text} (h : ls <+: ms) : ofLines ls <+: ofLines ms := by
  obtain ⟨rest, rfl⟩ := h
  rw [ofLines_append]
  exact List.prefix_append _ _

/-- A line ends at the first newline. -/
theorem lines_append_newline {l : Text} (h : '\n' ∉ l) (rest : Text) :
    lines (l ++ '\n' :: rest) = l :: lines rest := by
  induction l with
  | nil => simp [lines]
  | cons c l ih =>
    rw [List.mem_cons, not_or] at h
    have hc : c ≠ '\n' := fun heq => h.1 heq.symm
    simp [lines, hc, ih h.2]

/-- Lines without newlines of their own are read back. -/
theorem lines_ofLines {ls : List Text} (h : ∀ l ∈ ls, '\n' ∉ l) : lines (ofLines ls) = ls := by
  induction ls with
  | nil => rfl
  | cons l ls ih =>
    have hl : '\n' ∉ l := h l List.mem_cons_self
    have hls : ∀ m ∈ ls, '\n' ∉ m := fun m hm => h m (List.mem_cons_of_mem _ hm)
    rw [ofLines_cons, lines_append_newline hl, ih hls]

theorem count_line {l : Text} (h : '\n' ∉ l) : (l ++ ['\n']).count '\n' = 1 := by
  rw [List.count_append, List.count_eq_zero.2 h]
  rfl

/-- There are as many newlines as lines. -/
theorem count_ofLines {ls : List Text} (h : ∀ l ∈ ls, '\n' ∉ l) :
    (ofLines ls).count '\n' = ls.length := by
  induction ls with
  | nil => rfl
  | cons l ls ih =>
    have hl : '\n' ∉ l := h l List.mem_cons_self
    have hls : ∀ m ∈ ls, '\n' ∉ m := fun m hm => h m (List.mem_cons_of_mem _ hm)
    rw [ofLines_cons, List.count_append, List.count_eq_zero.2 hl, List.count_cons_self, ih hls]
    simp

/-- What stands in no line stands in no text of such lines. -/
theorem not_mem_ofLines {c : Char} (hc : c ≠ '\n') {ls : List Text} (h : ∀ l ∈ ls, c ∉ l) :
    c ∉ ofLines ls := by
  intro hmem
  obtain ⟨l, hl, hmem⟩ := List.mem_flatMap.1 hmem
  rcases List.mem_append.1 hmem with hmem | hmem
  · exact h l hl hmem
  · exact hc (List.mem_singleton.1 hmem)

theorem withoutLastLine_ofLines {ls : List Text} (h : ∀ l ∈ ls, '\n' ∉ l) :
    withoutLastLine (ofLines ls) = ofLines ls.dropLast := by
  rw [withoutLastLine, lines_ofLines h]

end Bytecode.Text
