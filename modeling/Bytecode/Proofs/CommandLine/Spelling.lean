import Bytecode.CommandLine.Arguments
import Mathlib.Data.List.Basic

/-!
# One command line in many spellings

An option and its value can be put into arguments in five ways, and options and
bytes can be mixed.  None of this matters to what is asked for: a command line is
read as the list of its words, whatever they are spelled like, and only the order of
the constants and the order of the bytes are kept.

* `CommandLine.Word` — an option with its value, the flag, or a byte, and the style
  that it is written in; `CommandLine.spelled` — the arguments that spell words.
* `CommandLine.request` — what words ask for.
* `CommandLine.scan_spelled_append` — arguments are read as the words that they spell.
* `CommandLine.Table.takesMark`, `CommandLine.Table.scan_append_mark` — for any table of
  options, which marks are taken for values, and what the others do.
* `CommandLine.parse_append_mark_iff` — behind the mark that all is bytes now, every
  argument is one.
* `CommandLine.ReadAsAsked` — how a command line can be respelled, mixed differently
  and marked.
* `CommandLine.readAsAsked_of_fits` — none of this changes what is read.
-/

namespace Bytecode.CommandLine

/-! ## Words -/

/-- The ways to put an option and its value into arguments. -/
inductive Style where
  /-- The letter of the option, and the value in the next argument. -/
  | letterApart
  /-- The letter of the option with the value behind it. -/
  | letterAttached
  | letterEquals
  /-- The long name of the option, and the value in the next argument. -/
  | nameApart
  | nameEquals
deriving Repr, DecidableEq

/-- A word of the command line. -/
inductive Word where
  | setting (setting : Setting) (style : Style) (value : Text)
  | demo
  | byte (text : Text)
deriving Repr, DecidableEq

/-- The letter of an option with a value. -/
def Setting.letter : Setting → Char
  | .constant => 'k'
  | .line => 'l'
  | .name => 'n'

/-- The long name of an option with a value. -/
def Setting.longName : Setting → Text
  | .constant => "const".toList
  | .line => "line".toList
  | .name => "name".toList

/-- The arguments that spell a word. -/
def Word.arguments : Word → List Text
  | .setting s .letterApart value => [['-', s.letter], value]
  | .setting s .letterAttached value => ['-' :: s.letter :: value]
  | .setting s .letterEquals value => ['-' :: s.letter :: '=' :: value]
  | .setting s .nameApart value => ['-' :: '-' :: s.longName, value]
  | .setting s .nameEquals value => ['-' :: '-' :: (s.longName ++ '=' :: value)]
  | .demo => ["--demo".toList]
  | .byte t => [t]

/-- The arguments that spell words, one after the other. -/
def spelled (ws : List Word) : List Text := ws.flatMap Word.arguments

/-- Whether a word can be told from what stands around it.  A value is not empty and starts with no
equals sign; a name does not start like an option, and neither does a byte. -/
def Word.IsPlain : Word → Prop
  | .setting .name _ value => value ≠ [] ∧ value.head? ≠ some '-' ∧ value.head? ≠ some '='
  | .setting _ _ value => value ≠ [] ∧ value.head? ≠ some '='
  | .demo => True
  | .byte t => t ≠ [] ∧ t.head? ≠ some '-'

instance : DecidablePred Word.IsPlain
  | .setting .name _ value =>
    inferInstanceAs (Decidable (value ≠ [] ∧ value.head? ≠ some '-' ∧ value.head? ≠ some '='))
  | .setting .constant _ value => inferInstanceAs (Decidable (value ≠ [] ∧ value.head? ≠ some '='))
  | .setting .line _ value => inferInstanceAs (Decidable (value ≠ [] ∧ value.head? ≠ some '='))
  | .demo => inferInstanceAs (Decidable True)
  | .byte t => inferInstanceAs (Decidable (t ≠ [] ∧ t.head? ≠ some '-'))

/-! ## What words ask for -/

/-- The value that a word gives to an option. -/
def Word.value? (s : Setting) : Word → Option Text
  | .setting s' _ value => if s' = s then some value else none
  | _ => none

/-- The byte that a word is. -/
def Word.byte? : Word → Option Text
  | .byte t => some t
  | _ => none

/-- What words ask for: the constants and the bytes, each in their order, and the line, the name and
the flag wherever they stand. -/
def request (ws : List Word) : Arguments where
  constants := ws.filterMap (Word.value? .constant)
  line := (ws.filterMap (Word.value? .line)).head?
  name := (ws.filterMap (Word.value? .name)).head?
  demo := decide (.demo ∈ ws)
  bytes := ws.filterMap Word.byte?

/-- Words that make up a command line: each can be told from what stands around it, and the options
that may be given once are given once at most. -/
structure Fits (ws : List Word) : Prop where
  plain : ∀ w ∈ ws, w.IsPlain
  line : (ws.filterMap (Word.value? .line)).length ≤ 1
  name : (ws.filterMap (Word.value? .name)).length ≤ 1
  demo : ws.count .demo ≤ 1

/-- Words that differ in their styles and in how words of different kinds are mixed, and in nothing
else: for each option the values are the same in the same order, and so are the bytes. -/
structure SameWords (ws ws' : List Word) : Prop where
  values : ∀ s, ws.filterMap (Word.value? s) = ws'.filterMap (Word.value? s)
  demo : ws.count .demo = ws'.count .demo
  bytes : ws.filterMap Word.byte? = ws'.filterMap Word.byte?

/-! ## Reading one word -/

/-- The item that a word is read as. -/
def Word.item : Word → Item Setting Flag
  | .setting s _ value => .setting s.option (some value)
  | .demo => .flag .demo
  | .byte t => .positional t

section Classify

variable (s : Setting)

@[simp] theorem setting_option : s.option.setting = s := by
  cases s <;> rfl

theorem lettered_letter : options.lettered? s.letter = some s.option := by
  cases s <;> rfl

theorem named_longName : options.named? s.longName = some s.option := by
  cases s <;> rfl

theorem letter_ne_dash : s.letter ≠ '-' := by
  cases s <;> decide

/-- A long name can be told from what an equals sign attaches to it. -/
theorem longName_plain : s.longName ≠ [] ∧ ∀ c ∈ s.longName, c ≠ '=' := by
  cases s <;> simp [Setting.longName]

end Classify

/-- A text that is there and does not start with `d` starts with another character. -/
theorem exists_cons_ne {t : Text} {d : Char} (hne : t ≠ []) (hd : t.head? ≠ some d) :
    ∃ c rest, t = c :: rest ∧ c ≠ d := by
  obtain ⟨c, rest, rfl⟩ := List.exists_cons_of_ne_nil hne
  exact ⟨c, rest, rfl, fun hc => hd (congrArg some hc)⟩

/-- A value that an option can be given is taken from the next argument. -/
theorem takes_of_isPlain {s : Setting} {style : Style} {value : Text}
    (h : (Word.setting s style value).IsPlain) : s.option.takes value = true := by
  cases s with
  | constant => rfl
  | line => rfl
  | name =>
    obtain ⟨c, rest, rfl, hc⟩ := exists_cons_ne h.1 h.2.1
    simp [ValueOption.takes, hc]

theorem ne_nil_of_isPlain {s : Setting} {style : Style} {value : Text}
    (h : (Word.setting s style value).IsPlain) : value ≠ [] ∧ value.head? ≠ some '=' := by
  cases s with
  | constant => exact h
  | line => exact h
  | name => exact ⟨h.1, h.2.2⟩

/-- One word is read as its item, and reading goes on behind it. -/
theorem scan_arguments_append {w : Word} (h : w.IsPlain) (rest : List Text) :
    options.scan (w.arguments ++ rest) = (options.scan rest).map (w.item :: ·) := by
  cases w with
  | demo => exact Table.scan_of_item rest rfl
  | byte t =>
    obtain ⟨hne, hdash⟩ := h
    obtain ⟨c, t, rfl, hc⟩ := exists_cons_ne hne hdash
    exact Table.scan_of_item rest (options.classify_of_ne_dash hc t)
  | setting s style value =>
    obtain ⟨hne, hequals⟩ := ne_nil_of_isPlain h
    obtain ⟨hnameNe, hname⟩ := longName_plain s
    cases style with
    | letterApart =>
      have hletter := Table.classify_letter (lettered_letter s) (letter_ne_dash s)
      exact Table.scan_of_taken rest hletter (takes_of_isPlain h)
    | letterAttached =>
      obtain ⟨c, value, rfl, hc⟩ := exists_cons_ne hne hequals
      exact Table.scan_of_item rest
        (Table.classify_letterAttached (lettered_letter s) (letter_ne_dash s) hc value)
    | letterEquals =>
      exact Table.scan_of_item rest
        (Table.classify_letterEquals (lettered_letter s) (letter_ne_dash s) value)
    | nameApart =>
      have hlong := Table.classify_name (named_longName s) hnameNe hname
      exact Table.scan_of_taken rest hlong (takes_of_isPlain h)
    | nameEquals =>
      exact Table.scan_of_item rest (Table.classify_nameEquals (named_longName s) hname value)

/-- Arguments are read as the words that they spell. -/
theorem scan_spelled_append {ws : List Word} (h : ∀ w ∈ ws, w.IsPlain) (rest : List Text) :
    options.scan (spelled ws ++ rest) = (options.scan rest).map (ws.map Word.item ++ ·) := by
  induction ws with
  | nil =>
    show options.scan rest = _
    cases options.scan rest <;> rfl
  | cons w ws ih =>
    obtain ⟨hw, hws⟩ := List.forall_mem_cons.1 h
    have hcons : spelled (w :: ws) ++ rest = w.arguments ++ (spelled ws ++ rest) := by
      rw [spelled, List.flatMap_cons, List.append_assoc]
      rfl
    rw [hcons, scan_arguments_append hw, ih hws]
    cases options.scan rest <;> rfl

/-! ## Items that go together -/

section Items

variable (ws : List Word)

theorem values_items (s : Setting) :
    values s (ws.map Word.item) = ws.filterMap (Word.value? s) := by
  rw [values, List.filterMap_map]
  congr
  funext w
  cases w <;> simp [Word.item, Word.value?]

theorem occurrences_items (s : Setting) :
    occurrences s (ws.map Word.item) = (ws.filterMap (Word.value? s)).length := by
  rw [occurrences, List.countP_map, List.length_filterMap_eq_countP]
  congr
  funext w
  cases w with
  | setting s' style value => by_cases h : s' = s <;> simp [Word.item, Word.value?, h]
  | demo => rfl
  | byte t => rfl

theorem count_demo_items : (ws.map Word.item).count (.flag .demo) = ws.count .demo := by
  rw [List.count, List.countP_map, List.count]
  congr
  funext w
  cases w <;> simp [Word.item]

theorem demo_mem_items : .flag .demo ∈ ws.map Word.item ↔ .demo ∈ ws := by
  rw [← List.count_pos_iff, ← List.count_pos_iff, count_demo_items]

theorem gather_items : gather (ws.map Word.item) = request ws := by
  rw [gather, request, values_items, values_items, values_items, List.contains_eq_mem,
    List.filterMap_map]
  simp only [demo_mem_items]
  congr
  funext w
  cases w <;> rfl

end Items

theorem value_mem {ws : List Word} {s : Setting} {style : Style} {value : Text}
    (h : .setting s style value ∈ ws) : value ∈ ws.filterMap (Word.value? s) :=
  List.mem_filterMap.2 ⟨_, h, by simp [Word.value?]⟩

/-- The words of a command line go together. -/
theorem check_items {ws : List Word} (h : Fits ws) : check (ws.map Word.item) = none := by
  rw [check_eq_none_iff]
  intro i hi
  obtain ⟨w, hw, rfl⟩ := List.mem_map.1 hi
  cases w with
  | byte t => rfl
  | demo =>
    rw [Word.item, conflict, count_demo_items, if_neg (Nat.not_lt.2 h.demo)]
  | setting s style value =>
    have honce : ¬ (s.option.repeatable = false ∧
        1 < (ws.filterMap (Word.value? s)).length) := by
      rintro ⟨hs, hlength⟩
      cases s with
      | constant => cases hs
      | line => exact absurd h.line (Nat.not_le.2 hlength)
      | name => exact absurd h.name (Nat.not_le.2 hlength)
    rw [Word.item, conflict, setting_option, values_items, occurrences_items, if_neg,
      if_neg honce]
    rw [List.isEmpty_iff]
    exact List.ne_nil_of_mem (value_mem hw)

/-- A command line is read as what its words ask for. -/
theorem parse_spelled {ws : List Word} (h : Fits ws) : parse (spelled ws) = .ok (request ws) := by
  have hscan := scan_spelled_append h.plain []
  rw [List.append_nil] at hscan
  rw [Table.scan_nil, Except.map, List.append_nil] at hscan
  exact parse_eq_ok_iff.2 ⟨_, hscan, check_items h, gather_items ws⟩

/-! ## Behind the mark -/

/-- The mark behind which there are only bytes. -/
def mark : Text := ['-', '-']

section Mark

variable {σ φ : Type} [DecidableEq σ] {items : List (Item σ φ)} (rest : List Text)

theorem values_append_positional (s : σ) :
    values s (items ++ rest.map .positional) = values s items := by
  simp [values, List.filterMap_map]

variable [DecidableEq φ]

theorem conflict_append_positional (i : Item σ φ) :
    conflict (items ++ rest.map .positional) i = conflict items i := by
  have hcount (f : φ) : (rest.map .positional : List (Item σ φ)).count (.flag f) = 0 := by
    rw [List.count_eq_zero]
    simp
  have hoccurrences (s : σ) :
      occurrences s (items ++ rest.map .positional) = occurrences s items := by
    simp [occurrences, List.countP_map]
  cases i with
  | positional t => rfl
  | flag f => rw [conflict, conflict, List.count_append, hcount, Nat.add_zero]
  | setting o value => rw [conflict, conflict, values_append_positional, hoccurrences]

/-- Positional arguments go together with everything. -/
theorem check_append_positional_eq_none_iff :
    check (items ++ rest.map .positional) = none ↔ check items = none := by
  have hpositional : ∀ i ∈ rest.map Item.positional, conflict items i = none := by
    intro i hi
    obtain ⟨t, -, rfl⟩ := List.mem_map.1 hi
    rfl
  simp only [check_eq_none_iff, conflict_append_positional, List.forall_mem_append]
  exact and_iff_left hpositional

end Mark

theorem gather_append_positional {items : List (Item Setting Flag)} (rest : List Text) :
    gather (items ++ rest.map .positional) =
      { gather items with bytes := (gather items).bytes ++ rest } := by
  simp [gather, values_append_positional, List.filterMap_map]

namespace Table

variable {σ φ : Type} (table : Table σ φ)

/-- Whether the mark is taken for the value of an option when it stands behind these arguments. -/
def takesMark : List Text → Bool
  | [] => false
  | t :: rest =>
    match table.classify t with
    | .item _ => takesMark rest
    | .mark | .stop _ => false
    | .setting o =>
      match rest with
      | [] => o.takes mark
      | value :: rest => if o.takes value then takesMark rest else takesMark (value :: rest)

variable {table}

/-- Behind the mark, every argument is positional, and the mark itself adds nothing. -/
theorem scan_append_mark {before : List Text} (h : table.takesMark before = false)
    (rest : List Text) :
    table.scan (before ++ mark :: rest) =
      (table.scan (before ++ [mark])).map (· ++ rest.map .positional) := by
  fun_induction takesMark table before with
  | case1 => rfl
  | case2 t before i hitem ih =>
    rw [List.cons_append, List.cons_append, scan_of_item _ hitem, scan_of_item _ hitem, ih h]
    cases table.scan (before ++ [mark]) <;> rfl
  | case3 t before hmark =>
    rw [List.cons_append, List.cons_append, scan_of_mark _ hmark, scan_of_mark _ hmark]
    simp [Except.map]
  | case4 t before reason hstop =>
    rw [List.cons_append, List.cons_append, scan_of_stop _ hstop, scan_of_stop _ hstop]
    rfl
  | case5 t o hsetting =>
    rw [List.singleton_append, List.singleton_append, scan_of_not_taken _ hsetting h,
      scan_of_not_taken _ hsetting h]
    rfl
  | case6 t o hsetting value before htaken ih =>
    simp only [List.cons_append]
    rw [scan_of_taken _ hsetting htaken, scan_of_taken _ hsetting htaken, ih h]
    cases table.scan (before ++ [mark]) <;> rfl
  | case7 t o hsetting value before hleft ih =>
    have hvalue : o.takes value = false := Bool.eq_false_iff.2 hleft
    simp only [List.cons_append] at ih ⊢
    rw [scan_of_not_taken _ hsetting hvalue, scan_of_not_taken _ hsetting hvalue, ih h]
    cases table.scan (value :: (before ++ [mark])) <;> rfl

end Table

/-- Behind the mark, every argument is a byte: what is asked for differs from what is asked for
without them by these bytes alone. -/
theorem parse_append_mark_iff {before : List Text} (h : options.takesMark before = false)
    (rest : List Text) {a : Arguments} :
    parse (before ++ mark :: rest) = .ok a ↔
      ∃ a', parse (before ++ [mark]) = .ok a' ∧ a = { a' with bytes := a'.bytes ++ rest } := by
  simp only [parse_eq_ok_iff, Table.scan_append_mark h rest]
  cases options.scan (before ++ [mark]) with
  | error reason => simp [Except.map]
  | ok items =>
    simp only [Except.map, Except.ok.injEq, exists_eq_left', check_append_positional_eq_none_iff,
      gather_append_positional]
    constructor
    · rintro ⟨hcheck, rfl⟩
      exact ⟨_, ⟨hcheck, rfl⟩, rfl⟩
    · rintro ⟨a', ⟨hcheck, rfl⟩, rfl⟩
      exact ⟨hcheck, rfl⟩

/-! ## Spelling does not matter -/

section SameWords

variable {ws ws' : List Word}

theorem isPlain_setting_iff {s : Setting} {style style' : Style} {value : Text} :
    (Word.setting s style value).IsPlain ↔ (Word.setting s style' value).IsPlain := by
  cases s <;> exact Iff.rfl

theorem eq_of_value?_eq_some {s : Setting} {w : Word} {value : Text}
    (h : w.value? s = some value) : ∃ style, w = .setting s style value := by
  cases w with
  | setting s' style value' =>
    by_cases hs : s' = s <;> simp [Word.value?, hs] at h
    exact ⟨style, by rw [hs, h]⟩
  | demo => contradiction
  | byte t => contradiction

theorem eq_of_byte?_eq_some {w : Word} {t : Text} (h : w.byte? = some t) : w = .byte t := by
  cases w with
  | setting s style value => contradiction
  | demo => contradiction
  | byte t' =>
    cases h
    rfl

/-- Words that make up a command line still do in other styles and another mixture. -/
theorem Fits.of_sameWords (h : Fits ws) (hsame : SameWords ws ws') : Fits ws' where
  plain := by
    intro w hw
    cases w with
    | setting s style value =>
      have hvalue := value_mem hw
      rw [← hsame.values s] at hvalue
      obtain ⟨w, hw, hw'⟩ := List.mem_filterMap.1 hvalue
      obtain ⟨style', rfl⟩ := eq_of_value?_eq_some hw'
      exact isPlain_setting_iff.1 (h.plain _ hw)
    | demo => trivial
    | byte t =>
      have hbyte : t ∈ ws'.filterMap Word.byte? := List.mem_filterMap.2 ⟨_, hw, rfl⟩
      rw [← hsame.bytes] at hbyte
      obtain ⟨w, hw, hw'⟩ := List.mem_filterMap.1 hbyte
      rw [← eq_of_byte?_eq_some hw']
      exact h.plain w hw
  line := hsame.values .line ▸ h.line
  name := hsame.values .name ▸ h.name
  demo := hsame.demo ▸ h.demo

theorem request_eq_of_sameWords (hsame : SameWords ws ws') : request ws' = request ws := by
  have hdemo : .demo ∈ ws' ↔ .demo ∈ ws := by
    rw [← List.count_pos_iff, ← List.count_pos_iff, hsame.demo]
  rw [request, request, hsame.values, hsame.values, hsame.values, hsame.bytes]
  simp only [hdemo]

end SameWords

/-- Words and bytes behind a mark are read as the items that they are. -/
theorem scan_spelled_append_mark {ws : List Word} (h : ∀ w ∈ ws, w.IsPlain) (rest : List Text) :
    options.scan (spelled ws ++ mark :: rest) =
      .ok (ws.map Word.item ++ rest.map .positional) := by
  rw [scan_spelled_append h]
  rfl

/-- How a command line is read, whichever way it is spelled and mixed. -/
structure ReadAsAsked (ws : List Word) : Prop where
  parsed : parse (spelled ws) = .ok (request ws)
  /-- Other styles and another mixture are read alike. -/
  respelled : ∀ ws', SameWords ws ws' → parse (spelled ws') = parse (spelled ws)
  /-- A mark before bytes at the end changes nothing. -/
  marked : ∀ front tail, ws = front ++ tail.map .byte →
    parse (spelled front ++ mark :: tail) = parse (spelled ws)
  /-- Behind a mark, every argument is a byte, whatever it looks like. -/
  bytes : ∀ rest, parse (spelled ws ++ mark :: rest) =
    .ok { request ws with bytes := (request ws).bytes ++ rest }
  /-- That holds of a mark behind any arguments that do not take it for a value. -/
  onlyBytes : ∀ before rest a, options.takesMark before = false →
    (parse (before ++ mark :: rest) = .ok a ↔
      ∃ a', parse (before ++ [mark]) = .ok a' ∧ a = { a' with bytes := a'.bytes ++ rest })

/-- **Spelling and mixing do not matter.**  Arguments that spell words are read as what the words
ask for; so they can be respelled and mixed differently, and their bytes put behind a mark. -/
theorem readAsAsked_of_fits {ws : List Word} (h : Fits ws) : ReadAsAsked ws := by
  constructor
  case parsed => exact parse_spelled h
  case respelled =>
    intro ws' hsame
    rw [parse_spelled h, parse_spelled (h.of_sameWords hsame), request_eq_of_sameWords hsame]
  case marked =>
    rintro front tail rfl
    have hfront : ∀ w ∈ front, w.IsPlain := fun w hw => h.plain w (List.mem_append_left _ hw)
    have hitems : front.map Word.item ++ tail.map .positional =
        (front ++ tail.map Word.byte).map Word.item := by
      rw [List.map_append, List.map_map]
      rfl
    rw [parse_spelled h, parse_eq_ok_iff]
    exact ⟨_, scan_spelled_append_mark hfront tail, hitems ▸ check_items h, hitems ▸ gather_items _⟩
  case bytes =>
    intro rest
    rw [parse_eq_ok_iff]
    refine ⟨_, scan_spelled_append_mark h.plain rest, ?_, ?_⟩
    · exact (check_append_positional_eq_none_iff rest).2 (check_items h)
    · rw [gather_append_positional, gather_items]
  case onlyBytes =>
    intro before rest a hbefore
    exact parse_append_mark_iff hbefore rest

/-- Words in all styles, with options, a flag and the mark among the values. -/
def mixed : List Word :=
  [.setting .constant .letterApart "-l".toList, .byte "7".toList,
    .setting .line .nameEquals "-4".toList, .setting .constant .nameApart "--".toList, .demo,
    .setting .name .letterEquals "x".toList, .setting .constant .letterAttached "--demo".toList,
    .byte "0x1".toList]

/-- The words are read as what they ask for, and behind the mark an option is a byte. -/
theorem readAsAsked_of_mixed :
    Fits mixed ∧
      spelled mixed ++ mark :: ["-n".toList] = ["-k", "-l", "7", "--line=-4", "--const", "--",
        "--demo", "-n=x", "-k--demo", "0x1", "--", "-n"].map String.toList ∧
      parse (spelled mixed ++ mark :: ["-n".toList]) =
        .ok ⟨["-l", "--", "--demo"].map String.toList, some "-4".toList, some "x".toList, true,
          ["7", "0x1", "-n"].map String.toList⟩ := by
  have hfits : Fits mixed := ⟨by decide, by decide, by decide, by decide⟩
  exact ⟨hfits, rfl, (readAsAsked_of_fits hfits).bytes ["-n".toList]⟩

end Bytecode.CommandLine
