import Bytecode.Text.Basic

/-!
# Reading arguments by a table of options

The options that a program knows are told by a table: their names and letters, which of
them take a value, what the value may look like, and which may be given again.  The rules
by which arguments are read are the same for all tables.  An option takes its value from
behind an equals sign, from the rest of a short option, or from the next argument; an
argument that is no option is positional; and behind the mark `--` all arguments are.

* `CommandLine.Table` — the options of a program.
* `CommandLine.Table.classify` — what one argument is.
* `CommandLine.Table.scan` — the items that arguments spell, up to the first argument
  that stops the reading; `scan_of_item` and the lemmas beside it are one step of it.
* `CommandLine.check` — whether items go together.
* `CommandLine.Table.read` — the items of arguments that are all right.
-/

namespace Bytecode.CommandLine

/-! ## Tables -/

/-- How an option with a value is given. -/
structure ValueOption (σ : Type) where
  /-- What the value is for. -/
  setting : σ
  /-- The name behind two dashes. -/
  name : Text
  /-- The letter behind one dash. -/
  letter : Char
  /-- Whether the value may look like an option. -/
  hyphenValues : Bool
  /-- Whether the option may be given again, with one more value. -/
  repeatable : Bool
deriving Repr, DecidableEq

/-- How an option without a value is given. It has no letter. -/
structure FlagOption (φ : Type) where
  flag : φ
  /-- The name behind two dashes. -/
  name : Text
deriving Repr, DecidableEq

/-- The options that a program knows, besides those that every program knows. -/
structure Table (σ φ : Type) where
  values : List (ValueOption σ)
  flags : List (FlagOption φ)
deriving Repr, DecidableEq

/-! ## What arguments come to -/

/-- What arguments spell. -/
inductive Item (σ φ : Type) where
  /-- An option with its value, if it got one. -/
  | setting (option : ValueOption σ) (value : Option Text)
  | flag (flag : φ)
  | positional (text : Text)
deriving Repr, DecidableEq

/-- Why arguments are refused. -/
inductive Refusal where
  | unknownArgument
  | emptyValue
  /-- An option that may be given once is given again. -/
  | repeated
  /-- A value is attached to an option that takes none. -/
  | tooManyValues
deriving Repr, DecidableEq

/-- Why arguments are not read. -/
inductive Stop where
  | help
  | version
  | refused (reason : Refusal)
deriving Repr, DecidableEq

variable {σ φ : Type}

/-! ## One argument -/

/-- What one argument is. -/
inductive Shape (σ φ : Type) where
  | item (item : Item σ φ)
  /-- An option whose value is in the next argument. -/
  | setting (option : ValueOption σ)
  /-- The mark behind which all arguments are positional. -/
  | mark
  | stop (reason : Stop)
deriving Repr, DecidableEq

/-- The options that every program knows, by their names. -/
def standardName? (name : Text) : Option Stop :=
  if name = "help".toList then some .help
  else if name = "version".toList then some .version
  else none

/-- The options that every program knows, by their letters. -/
def standardLetter? (c : Char) : Option Stop :=
  if c = 'h' then some .help
  else if c = 'V' then some .version
  else none

namespace Table

variable (table : Table σ φ)

/-- The option with a value that has the given name. -/
def named? (name : Text) : Option (ValueOption σ) := table.values.find? fun o => o.name = name

/-- The option with a value that has the given letter. -/
def lettered? (c : Char) : Option (ValueOption σ) := table.values.find? fun o => o.letter = c

/-- What an option without a value is, by its name. -/
def flagged? (name : Text) : Option (Shape σ φ) :=
  match table.flags.find? fun o => o.name = name with
  | some o => some (.item (.flag o.flag))
  | none => (standardName? name).map .stop

/-- A long option, without its dashes; a value is attached by an equals sign. -/
def classifyLong (t : Text) : Shape σ φ :=
  let name := t.takeWhile (· ≠ '=')
  let attached := t.dropWhile (· ≠ '=')
  match table.named? name, table.flagged? name, attached with
  | some o, _, [] => .setting o
  | some o, _, _ :: value => .item (.setting o (some value))
  | none, some flag, [] => flag
  | none, some _, _ :: _ => .stop (.refused .tooManyValues)
  | none, none, _ => .stop (.refused .unknownArgument)

/-- A short option; what follows its letter is its value, behind an equals sign or not. -/
def classifyShort (c : Char) (attached : Text) : Shape σ φ :=
  match table.lettered? c, attached with
  | some o, [] => .setting o
  | some o, '=' :: value => .item (.setting o (some value))
  | some o, value => .item (.setting o (some value))
  | none, _ => .stop ((standardLetter? c).getD (.refused .unknownArgument))

/-- What an argument is when it is not the value of the option before it. -/
def classify : Text → Shape σ φ
  | ['-', '-'] => .mark
  | '-' :: '-' :: long => table.classifyLong long
  | '-' :: c :: attached => table.classifyShort c attached
  | t => .item (.positional t)

/-- What starts with no dash is positional. -/
theorem classify_of_ne_dash {c : Char} (hc : c ≠ '-') (rest : Text) :
    table.classify (c :: rest) = .item (.positional (c :: rest)) := by
  simp [classify, hc]

section Value

variable {table} {o : ValueOption σ} {c : Char}

/-- The letter of an option on its own leaves the value to the next argument. -/
theorem classify_letter (h : table.lettered? c = some o) (hc : c ≠ '-') :
    table.classify ['-', c] = .setting o := by
  simp [classify, classifyShort, h, hc]

theorem classify_letterAttached (h : table.lettered? c = some o) (hc : c ≠ '-') {d : Char}
    (hd : d ≠ '=') (rest : Text) :
    table.classify ('-' :: c :: d :: rest) = .item (.setting o (some (d :: rest))) := by
  simp [classify, classifyShort, h, hd]

theorem classify_letterEquals (h : table.lettered? c = some o) (hc : c ≠ '-') (value : Text) :
    table.classify ('-' :: c :: '=' :: value) = .item (.setting o (some value)) := by
  simp [classify, classifyShort, h]

/-- The name of an option is told from what is attached to it by the equals sign. -/
theorem split_name {name : Text} (hname : ∀ d ∈ name, d ≠ '=') (attached : Text)
    (hattached : ∀ d ∈ attached.head?, d = '=') :
    (name ++ attached).takeWhile (· ≠ '=') = name ∧
      (name ++ attached).dropWhile (· ≠ '=') = attached := by
  have hrun : ∀ d ∈ name, decide (d ≠ '=') = true := fun d hd => decide_eq_true (hname d hd)
  have hrest : ∀ d ∈ attached.head?, decide (d ≠ '=') = false := fun d hd =>
    decide_eq_false (not_not_intro (hattached d hd))
  exact ⟨Text.takeWhile_run hrun hrest, Text.dropWhile_run hrun hrest⟩

/-- The name of an option on its own leaves the value to the next argument. -/
theorem classify_name {name : Text} (h : table.named? name = some o) (hne : name ≠ [])
    (hname : ∀ d ∈ name, d ≠ '=') : table.classify ('-' :: '-' :: name) = .setting o := by
  have hsplit := split_name hname [] (by simp)
  rw [List.append_nil] at hsplit
  simp only [classify, classifyLong, hsplit, h]

theorem classify_nameEquals {name : Text} (h : table.named? name = some o)
    (hname : ∀ d ∈ name, d ≠ '=') (value : Text) :
    table.classify ('-' :: '-' :: (name ++ '=' :: value)) = .item (.setting o (some value)) := by
  have hsplit := split_name hname ('=' :: value) (by simp)
  have hlong : table.classify ('-' :: '-' :: (name ++ '=' :: value)) =
      table.classifyLong (name ++ '=' :: value) := by
    cases name <;> rfl
  rw [hlong, classifyLong]
  simp only [hsplit, h]

end Value

end Table

/-! ## All arguments -/

/-- Whether an option takes the next argument for its value. If the value may not look like an
option, it does not start with a dash, unless that is all there is. -/
def ValueOption.takes (o : ValueOption σ) (t : Text) : Bool :=
  o.hyphenValues ||
    match t with
    | '-' :: _ :: _ => false
    | _ => true

namespace Table

variable (table : Table σ φ)

/-- The items that the arguments spell, from left to right. -/
def scan : List Text → Except Stop (List (Item σ φ))
  | [] => .ok []
  | t :: rest =>
    match table.classify t with
    | .item i => (scan rest).map (i :: ·)
    | .mark => .ok (rest.map .positional)
    | .stop reason => .error reason
    | .setting o =>
      match rest with
      | [] => .ok [.setting o none]
      | value :: rest =>
        if o.takes value then (scan rest).map (.setting o (some value) :: ·)
        else (scan (value :: rest)).map (.setting o none :: ·)

@[simp] theorem scan_nil : table.scan [] = .ok [] := rfl

section Scan

variable {table} {t value : Text} {o : ValueOption σ} (rest : List Text)

theorem scan_of_item {i : Item σ φ} (h : table.classify t = .item i) :
    table.scan (t :: rest) = (table.scan rest).map (i :: ·) := by
  rw [scan, h]

/-- Behind the mark all arguments are positional. -/
theorem scan_of_mark (h : table.classify t = .mark) :
    table.scan (t :: rest) = .ok (rest.map .positional) := by
  rw [scan, h]

theorem scan_of_stop {reason : Stop} (h : table.classify t = .stop reason) :
    table.scan (t :: rest) = .error reason := by
  rw [scan, h]

/-- An option takes the next argument for its value … -/
theorem scan_of_taken (h : table.classify t = .setting o) (htaken : o.takes value = true) :
    table.scan (t :: value :: rest) =
      (table.scan rest).map (.setting o (some value) :: ·) := by
  rw [scan, h]
  simp only [htaken, if_true]

/-- … or leaves it to be read on its own. -/
theorem scan_of_not_taken (h : table.classify t = .setting o) (hleft : o.takes value = false) :
    table.scan (t :: value :: rest) =
      (table.scan (value :: rest)).map (.setting o none :: ·) := by
  rw [scan, h]
  simp [hleft]

end Scan

end Table

/-! ## Items that go together -/

variable [DecidableEq σ] [DecidableEq φ]

/-- The values that an option got. -/
def values (s : σ) (items : List (Item σ φ)) : List Text :=
  items.filterMap fun
    | .setting o value => if o.setting = s then value else none
    | _ => none

/-- How often an option is given. -/
def occurrences (s : σ) (items : List (Item σ φ)) : Nat :=
  items.countP fun
    | .setting o _ => o.setting = s
    | _ => false

/-- Why an item does not go together with the others: its option got no value at all, or it is
given again although it may be given once. -/
def conflict (items : List (Item σ φ)) : Item σ φ → Option Refusal
  | .positional _ => none
  | .flag f => if 1 < items.count (.flag f) then some .repeated else none
  | .setting o _ =>
    if (values o.setting items).isEmpty then some .emptyValue
    else if o.repeatable = false ∧ 1 < occurrences o.setting items then some .repeated
    else none

/-- Why the items are refused. An option at the end that never got a value is found first; apart
from that, the first item that does not go together with the others. -/
def check (items : List (Item σ φ)) : Option Refusal :=
  match items.getLast? with
  | some (.setting o none) =>
    if (values o.setting items).isEmpty then some .emptyValue
    else items.findSome? (conflict items)
  | _ => items.findSome? (conflict items)

/-- The items that the arguments spell, if they go together. -/
def Table.read (table : Table σ φ) (arguments : List Text) : Except Stop (List (Item σ φ)) :=
  match table.scan arguments with
  | .error reason => .error reason
  | .ok items =>
    match check items with
    | some reason => .error (.refused reason)
    | none => .ok items

/-- Arguments are read as the items that they spell, if these go together. -/
theorem Table.read_eq_ok_iff {table : Table σ φ} {arguments : List Text}
    {items : List (Item σ φ)} :
    table.read arguments = .ok items ↔ table.scan arguments = .ok items ∧ check items = none := by
  rw [read]
  cases table.scan arguments with
  | error reason => simp
  | ok found =>
    simp only [Except.ok.injEq]
    constructor
    · intro h
      split at h
      · cases h
      · rename_i hcheck
        cases h
        exact ⟨rfl, hcheck⟩
    · rintro ⟨rfl, hcheck⟩
      rw [hcheck]

/-- Items go together iff none of them is in conflict with the others; the option at the end has no
rule of its own. -/
theorem check_eq_none_iff {items : List (Item σ φ)} :
    check items = none ↔ ∀ i ∈ items, conflict items i = none := by
  rw [← List.findSome?_eq_none_iff, check]
  split
  · rename_i o hlast
    split
    · rename_i hempty
      refine iff_of_false (by simp) fun hnone => ?_
      have hconflict := List.findSome?_eq_none_iff.1 hnone _ (List.mem_of_getLast? hlast)
      simp [conflict, hempty] at hconflict
    · rfl
  · rfl

end Bytecode.CommandLine
