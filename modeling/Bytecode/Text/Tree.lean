import Bytecode.Text.Basic

/-!
# Trees

The description of a structured object as a tree, and its two written forms: on one
line, or spread out with every part on a line of its own, indented by four blanks and
followed by a comma.

* `Text.Tree.text` — the written form, spread out or not.
-/

namespace Bytecode.Text

/-- The brackets around the parts of an object. -/
inductive Bracket where
  /-- Braces, for parts with labels. -/
  | record
  /-- Parentheses, for the parts of a named tuple. -/
  | tuple
  /-- Square brackets, for a sequence. -/
  | list
deriving Repr, DecidableEq

/-- The description of an object: a word, a labelled part, or named and bracketed parts. -/
inductive Tree where
  | word (text : Text)
  | labelled (label : Text) (part : Tree)
  | group (name : Text) (bracket : Bracket) (parts : List Tree)

namespace Tree

/-- An object with labelled parts. -/
def record (name : String) (parts : List (String × Tree)) : Tree :=
  .group name.toList .record (parts.map fun p => .labelled p.1.toList p.2)

/-- An object with parts that have no labels. -/
def tuple (name : String) (parts : List Tree) : Tree :=
  .group name.toList .tuple parts

/-- A sequence of objects. -/
def list (parts : List Tree) : Tree :=
  .group [] .list parts

/-- The written form on one line. -/
def line : Tree → Text
  | .word text => text
  | .labelled label part => label ++ ": ".toList ++ part.line
  | .group name bracket parts =>
    let inner := join ", ".toList (parts.map fun part => part.line)
    match bracket with
    | .record => name ++ " \x7b ".toList ++ inner ++ " \x7d".toList
    | .tuple => name ++ ['('] ++ inner ++ [')']
    | .list => name ++ ['['] ++ inner ++ [']']

/-- The lines of a part inside its brackets: indented, with a comma after the last one. -/
def indent : List Text → List Text
  | [] => []
  | [last] => ["    ".toList ++ last ++ [',']]
  | first :: rest => ("    ".toList ++ first) :: indent rest

/-- The lines of the form that is spread out. -/
def lines : Tree → List Text
  | .word text => [text]
  | .labelled label part =>
    match part.lines with
    | [] => [label]
    | first :: rest => (label ++ ": ".toList ++ first) :: rest
  | .group name bracket parts =>
    let (opening, closing) : Text × Text := match bracket with
      | .record => (name ++ " \x7b".toList, ['\x7d'])
      | .tuple => (name ++ ['('], [')'])
      | .list => (name ++ ['['], [']'])
    let inner := (parts.map fun part => indent part.lines).flatten
    if parts.isEmpty then [opening ++ closing] else opening :: inner ++ [closing]

/-- The written form of an object, spread out or on one line. -/
def text (spread : Bool) (t : Tree) : Text :=
  if spread then join ['\n'] t.lines else t.line

end Tree

end Bytecode.Text
