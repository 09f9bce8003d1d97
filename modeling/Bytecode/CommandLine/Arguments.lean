import Bytecode.CommandLine.Parser

/-!
# The arguments of the program

The program takes constants, a line, a name, a flag for its sample, and bytes.

* `CommandLine.options` — its table of options.
* `CommandLine.parse` — what arguments ask for.
-/

namespace Bytecode.CommandLine

/-- What the options with a value are for. -/
inductive Setting where
  | constant
  | line
  | name
deriving Repr, DecidableEq

/-- What the options without a value are for. -/
inductive Flag where
  /-- Shows the sample. -/
  | demo
deriving Repr, DecidableEq

/-- How the options with a value are given. Constants and lines may be negative, so their values may
look like options; there may be many constants. -/
def Setting.option : Setting → ValueOption Setting
  | .constant =>
    { setting := .constant, name := "const".toList, letter := 'k', hyphenValues := true,
      repeatable := true }
  | .line =>
    { setting := .line, name := "line".toList, letter := 'l', hyphenValues := true,
      repeatable := false }
  | .name =>
    { setting := .name, name := "name".toList, letter := 'n', hyphenValues := false,
      repeatable := false }

/-- The options of the program. -/
def options : Table Setting Flag where
  values := [Setting.constant.option, Setting.line.option, Setting.name.option]
  flags := [{ flag := .demo, name := "demo".toList }]

/-- What is asked for. -/
structure Arguments where
  constants : List Text
  line : Option Text
  name : Option Text
  demo : Bool
  bytes : List Text
deriving Repr, DecidableEq

/-- What items ask for. -/
def gather (items : List (Item Setting Flag)) : Arguments where
  constants := values .constant items
  line := (values .line items).head?
  name := (values .name items).head?
  demo := items.contains (.flag .demo)
  bytes := items.filterMap fun
    | .positional t => some t
    | _ => none

/-- Reads the arguments. -/
def parse (arguments : List Text) : Except Stop Arguments := (options.read arguments).map gather

/-- Arguments ask for what the items that they spell ask for, if these go together. -/
theorem parse_eq_ok_iff {arguments : List Text} {a : Arguments} :
    parse arguments = .ok a ↔
      ∃ items, options.scan arguments = .ok items ∧ check items = none ∧ gather items = a := by
  rw [parse]
  cases hread : options.read arguments with
  | error reason =>
    refine iff_of_false (by simp [Except.map]) ?_
    rintro ⟨items, hscan, hcheck, -⟩
    rw [Table.read_eq_ok_iff.2 ⟨hscan, hcheck⟩] at hread
    cases hread
  | ok items =>
    obtain ⟨hscan, hcheck⟩ := Table.read_eq_ok_iff.1 hread
    simp [Except.map, hscan, hcheck]

end Bytecode.CommandLine
