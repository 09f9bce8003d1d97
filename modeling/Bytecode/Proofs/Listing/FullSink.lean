import Bytecode.Proofs.Listing.Offsets

/-!
# Listings to a sink with a limit

A listing reaches its sink in many pieces, and any of them can be the one for
which there is no room.  Which one it is does not matter: all goes well iff there
is room for the text as a whole, and otherwise the sink is left with a beginning
of it.

* `Text.bytes` — the length of a text in UTF-8.
* `Sink.HasRoom`, `Sink.append` — whether a sink has room for a text, and the sink
  that has taken it.
* `Writes` — an operation puts out a text, whatever the limit is, and stops at the
  first piece that has no room.  Operations that are done one after the other put
  out their texts one after the other (`Writes.andThen`).
* `Listing.writes_writeAt`, `Listing.exists_writes_writeFrom` — one line, and the
  loop over all lines.
* `Listing.ReportsFullSink` — what writing to a sink with a limit comes to,
  compared with a sink without one.
* `Listing.reportsFullSink_of_reachable` — it holds of every reachable chunk.
-/

namespace Bytecode

/-! ## Room for a text -/

/-- The number of bytes of a text in UTF-8. -/
def Text.bytes (t : Text) : Nat := (String.ofList t).utf8ByteSize

/-- The bytes of texts one after the other add up. -/
theorem Text.bytes_append (t u : Text) : Text.bytes (t ++ u) = Text.bytes t + Text.bytes u := by
  rw [Text.bytes, String.ofList_append, String.utf8ByteSize_append]
  rfl

namespace Sink

/-- A sink that has taken another text. -/
def append (s : Sink) (t : Text) : Sink := ⟨s.limit, s.text ++ String.ofList t⟩

/-- Whether a sink may take another text. -/
def HasRoom (s : Sink) (t : Text) : Prop :=
  admits s.limit (s.text.utf8ByteSize + Text.bytes t) = true

variable {s : Sink} {t u : Text}

@[simp] theorem append_nil (s : Sink) : s.append [] = s := by
  simp [append]

@[simp] theorem append_append (s : Sink) (t u : Text) :
    (s.append t).append u = s.append (t ++ u) := by
  simp [append, String.ofList_append, String.append_assoc]

@[simp] theorem hasRoom_append_iff : (s.append t).HasRoom u ↔ s.HasRoom (t ++ u) := by
  rw [HasRoom, HasRoom, append, Text.bytes_append, String.utf8ByteSize_append, Nat.add_assoc]
  rfl

/-- A limit that admits some bytes admits fewer. -/
theorem admits_of_le {limit : Option Nat} {m n : Nat} (h : m ≤ n) (hn : admits limit n = true) :
    admits limit m = true := by
  cases limit with
  | none => rfl
  | some limit =>
    simp only [admits, decide_eq_true_eq] at hn ⊢
    omega

/-- A sink with room for a text has room for what comes first in it. -/
theorem HasRoom.of_append (h : s.HasRoom (t ++ u)) : s.HasRoom t := by
  refine admits_of_le ?_ h
  rw [Text.bytes_append]
  omega

theorem write_of_room (h : s.HasRoom t) : s.write t = .done (s.append t) () [] :=
  if_pos h

theorem write_of_no_room (h : ¬ s.HasRoom t) : s.write t = .stop s .refused [] :=
  if_neg h

theorem hasRoom_fresh_none (t : Text) : (fresh none).HasRoom t := rfl

/-- A new sink has room for texts up to its limit. -/
theorem hasRoom_fresh_some_iff {limit : Nat} :
    (fresh (some limit)).HasRoom t ↔ t.bytes ≤ limit := by
  have hempty : (fresh (some limit)).text.utf8ByteSize = 0 := rfl
  rw [HasRoom, hempty, Nat.zero_add]
  exact decide_eq_true_iff

@[simp] theorem toList_text_append_fresh (limit : Option Nat) (t : Text) :
    ((fresh limit).append t).text.toList = t := by
  simp [append, fresh]

@[simp] theorem utf8ByteSize_text_append_fresh (limit : Option Nat) (t : Text) :
    ((fresh limit).append t).text.utf8ByteSize = t.bytes := by
  rw [append, fresh, String.utf8ByteSize_append]
  exact Nat.zero_add _

end Sink

/-! ## Operations that put out a text -/

variable {ρ ρ' : Type}

/-- An operation puts out a text and comes to a reply, if the sink has room for the text.  Otherwise
it is refused, and the sink has taken a beginning of the text. -/
structure Writes (w : Sink → Outcome WriteFault Sink ρ) (t : Text) (reply : Except WriteFault ρ) :
    Prop where
  of_room : ∀ s : Sink, s.HasRoom t → (w s).reply = reply ∧ (w s).state = s.append t
  of_no_room : ∀ s : Sink, s.HasRoom [] → ¬ s.HasRoom t → (w s).reply = .error .refused ∧
    ∃ part, part <+: t ∧ s.HasRoom part ∧ (w s).state = s.append part

/-- A piece is put out whole. -/
theorem writes_write (piece : Text) : Writes (·.write piece) piece (.ok ()) where
  of_room s h := by
    rw [Sink.write_of_room h]
    exact ⟨rfl, rfl⟩
  of_no_room s hs h := by
    rw [Sink.write_of_no_room h]
    exact ⟨rfl, [], List.nil_prefix, hs, s.append_nil.symm⟩

/-- An operation that leaves the sink alone puts out nothing. -/
theorem writes_of_silent {w : Sink → Outcome WriteFault Sink ρ} {reply : Except WriteFault ρ}
    (h : ∀ s, (w s).reply = reply ∧ (w s).state = s) : Writes w [] reply where
  of_room s _ := by
    rw [Sink.append_nil]
    exact h s
  of_no_room _ hs h := absurd hs h

/-- Two operations put out one text after the other. -/
theorem Writes.andThen {w : Sink → Outcome WriteFault Sink ρ} {t u : Text} {r : ρ}
    {next : ρ → Sink → Outcome WriteFault Sink ρ'} {reply : Except WriteFault ρ'}
    (hfirst : Writes w t (.ok r)) (hnext : Writes (next r) u reply) :
    Writes (fun s => (w s).andThen next) (t ++ u) reply where
  of_room s h := by
    obtain ⟨hreply, hstate⟩ := hfirst.of_room s h.of_append
    rw [Outcome.andThen_of_ok next hreply, hstate, ← Sink.append_append]
    exact hnext.of_room _ (Sink.hasRoom_append_iff.2 h)
  of_no_room s hs h := by
    by_cases hroom : s.HasRoom t
    · -- the first text has room, and a beginning of the second one
      obtain ⟨hreply, hstate⟩ := hfirst.of_room s hroom
      have hbetween : (s.append t).HasRoom [] := by
        rwa [Sink.hasRoom_append_iff, List.append_nil]
      obtain ⟨hrefused, part, hpart, htaken, hend⟩ :=
        hnext.of_no_room (s.append t) hbetween (mt Sink.hasRoom_append_iff.1 h)
      rw [Outcome.andThen_of_ok next hreply, hstate]
      refine ⟨hrefused, t ++ part, ?_, Sink.hasRoom_append_iff.1 htaken, ?_⟩
      · exact (List.prefix_append_right_inj t).2 hpart
      · rw [hend, Sink.append_append]
    · obtain ⟨hrefused, part, hpart, htaken, hend⟩ := hfirst.of_no_room s hs hroom
      rw [Outcome.andThen_of_error next hrefused]
      exact ⟨rfl, part, hpart.trans (List.prefix_append t u), htaken, hend⟩

/-- An operation writes to a sink with a limit what it writes to one without: the same text with the
same reply if the text is no longer than the limit, and otherwise a beginning of the text. -/
structure KeepsLimit (w : Sink → Outcome WriteFault Sink ρ) (limit : Nat) : Prop where
  of_le : (w (.fresh none)).state.text.utf8ByteSize ≤ limit →
    (w (.fresh (some limit))).reply = (w (.fresh none)).reply ∧
      (w (.fresh (some limit))).state.text = (w (.fresh none)).state.text
  of_lt : limit < (w (.fresh none)).state.text.utf8ByteSize →
    (w (.fresh (some limit))).reply = .error .refused ∧
      (w (.fresh (some limit))).state.text.toList <+: (w (.fresh none)).state.text.toList ∧
      (w (.fresh (some limit))).state.text.utf8ByteSize ≤ limit

section

variable {w : Sink → Outcome WriteFault Sink ρ} {t : Text} {reply : Except WriteFault ρ}

theorem Writes.reply_fresh (h : Writes w t reply) : (w (.fresh none)).reply = reply :=
  (h.of_room _ (Sink.hasRoom_fresh_none t)).1

theorem Writes.state_fresh (h : Writes w t reply) :
    (w (.fresh none)).state = (Sink.fresh none).append t :=
  (h.of_room _ (Sink.hasRoom_fresh_none t)).2

/-- Under a limit, the run ends as without one, or with a beginning of its text. -/
theorem Writes.keepsLimit (h : Writes w t reply) (limit : Nat) : KeepsLimit w limit where
  of_le hle := by
    rw [h.state_fresh, Sink.utf8ByteSize_text_append_fresh] at hle
    obtain ⟨hreply, hstate⟩ := h.of_room _ (Sink.hasRoom_fresh_some_iff.2 hle)
    rw [hreply, hstate, h.reply_fresh, h.state_fresh]
    exact ⟨rfl, rfl⟩
  of_lt hlt := by
    rw [h.state_fresh, Sink.utf8ByteSize_text_append_fresh] at hlt
    have hempty : (Sink.fresh (some limit)).HasRoom [] :=
      Sink.hasRoom_fresh_some_iff.2 (Nat.zero_le limit)
    obtain ⟨hrefused, part, hpart, htaken, hend⟩ :=
      h.of_no_room _ hempty (mt Sink.hasRoom_fresh_some_iff.1 (Nat.not_le.2 hlt))
    refine ⟨hrefused, ?_, ?_⟩
    · rw [hend, h.state_fresh, Sink.toList_text_append_fresh, Sink.toList_text_append_fresh]
      exact hpart
    · rw [hend, Sink.utf8ByteSize_text_append_fresh]
      exact Sink.hasRoom_fresh_some_iff.1 htaken

/-- With the same reply as without a limit, or with none. -/
theorem Writes.reply_eq_ok_iff {r : ρ} (h : Writes w t (.ok r)) (limit : Nat) :
    (w (.fresh (some limit))).reply = .ok r ↔
      (w (.fresh none)).state.text.utf8ByteSize ≤ limit := by
  have hlimit := h.keepsLimit limit
  constructor
  · intro hok
    by_contra hlong
    rw [(hlimit.of_lt (Nat.lt_of_not_le hlong)).1] at hok
    cases hok
  · intro hle
    rw [(hlimit.of_le hle).1, h.reply_fresh]

end

namespace Listing

variable {c : Chunk}

/-! ## Lines and listings -/

/-- The reply to writing the line for an offset, if the sink has room for it. -/
def lineReply (c : Chunk) (offset : Nat) : Except WriteFault { next : Nat // offset < next } :=
  (advance offset (found c offset)).mapError .overflow

/-- What is put out for an offset is its line with a newline. -/
theorem writes_writeAt (c : Chunk) (offset : Nat) :
    Writes (writeAt c offset) (line c offset ++ ['\n']) (lineReply c offset) := by
  have hevents : Writes (fun s : Sink => .done s () (lineEvents c offset)) [] (.ok ()) :=
    writes_of_silent fun s => ⟨rfl, rfl⟩
  -- the text piece by piece: nothing, the line, its end, and nothing again
  have htext : line c offset ++ ['\n'] = [] ++ (line c offset ++ (['\n'] ++ [])) := rfl
  rw [htext]
  refine hevents.andThen ((writes_write (line c offset)).andThen
    ((writes_write ['\n']).andThen (writes_of_silent fun s => ?_)))
  rw [lineReply]
  cases advance offset (found c offset) <;> exact ⟨rfl, rfl⟩

/-- The loop over the lines puts out some text, and does not overflow. -/
theorem exists_writes_writeFrom (hc : c.size < Size.bound) (offset : Nat) :
    ∃ t, Writes (writeFrom c offset) t (.ok ()) := by
  induction hmeasure : c.size - offset using Nat.strong_induction_on generalizing offset with
  | _ measure ih =>
    by_cases hlt : offset < c.size
    · have hwithin := offset_add_width_le hlt
      obtain ⟨next, hnext, hval⟩ := advance_of_lt (Nat.lt_of_le_of_lt hwithin hc)
      have hline := writes_writeAt c offset
      rw [lineReply, hnext] at hline
      obtain ⟨rest, hrest⟩ := ih (c.size - next.val) (by have := next.property; omega) next.val rfl
      have hloop : writeFrom c offset = fun s =>
          (writeAt c offset s).andThen fun next s => writeFrom c next.val s :=
        funext fun s => writeFrom_of_lt s hlt
      refine ⟨line c offset ++ ['\n'] ++ rest, ?_⟩
      rw [hloop]
      exact hline.andThen hrest
    · have hend : ∀ s, writeFrom c offset s = .done s () [] := fun s =>
        writeFrom_of_le s (Nat.le_of_not_lt hlt)
      exact ⟨[], writes_of_silent fun s => by rw [hend]; exact ⟨rfl, rfl⟩⟩

theorem writes_writeHeader (name : Text) :
    Writes (writeHeader name) ("== ".toList ++ (name ++ " ==\n".toList)) (.ok ()) :=
  (writes_write _).andThen ((writes_write name).andThen (writes_write _))

theorem exists_writes_write (hc : c.size < Size.bound) (name : Option Text) :
    ∃ t, Writes (Listing.write ⟨c, name⟩) t (.ok ()) := by
  obtain ⟨t, hloop⟩ := exists_writes_writeFrom hc 0
  cases name with
  | none => exact ⟨t, hloop⟩
  | some name => exact ⟨_, (writes_writeHeader name).andThen hloop⟩

theorem lineReply_of_ne_last (hc : c.Reachable) {offset : Nat} (h : offset < Size.bound)
    (hlast : offset ≠ Size.bound - 1) : ∃ next, lineReply c offset = .ok next := by
  obtain ⟨next, hnext, -⟩ := advance_of_lt ((width_fits_iff hc h).2 hlast)
  exact ⟨next, by rw [lineReply, hnext]; rfl⟩

theorem lineReply_last (c : Chunk) :
    lineReply c (Size.bound - 1) = .error (.overflow .add) := by
  have hpos := (found c (Size.bound - 1)).width_pos
  have hwidth : Size.bound ≤ Size.bound - 1 + (found c (Size.bound - 1)).width := by omega
  rw [lineReply, advance_of_le hwidth]
  rfl

/-! ## Limits -/

/-- What writing about a chunk to a sink with a limit comes to. -/
structure ReportsFullSink (c : Chunk) (limit : Nat) : Prop where
  /-- A listing is written iff it is no longer than the limit … -/
  listing_iff : ∀ name, (Listing.write ⟨c, name⟩ (.fresh (some limit))).reply = .ok () ↔
    (Listing.write ⟨c, name⟩ (.fresh none)).state.text.utf8ByteSize ≤ limit
  /-- … and then it is the one that a sink without a limit takes; otherwise a beginning is. -/
  listing : ∀ name, KeepsLimit (Listing.write ⟨c, name⟩) limit
  /-- The line for an offset has a next offset as reply iff it is no longer than the limit, … -/
  line_iff : ∀ offset, offset < Size.bound - 1 → ∃ next,
    (writeAt c offset (.fresh none)).reply = .ok next ∧
      ((writeAt c offset (.fresh (some limit))).reply = .ok next ↔
        (writeAt c offset (.fresh none)).state.text.utf8ByteSize ≤ limit)
  /-- … and it is the line, or a beginning of it, that a sink without a limit takes. -/
  line : ∀ offset, offset < Size.bound → KeepsLimit (writeAt c offset) limit
  /-- The largest offset has none behind it: that is found out when its line has been written. -/
  last : (writeAt c (Size.bound - 1) (.fresh none)).state.text.utf8ByteSize ≤ limit →
    ∃ fault, (writeAt c (Size.bound - 1) (.fresh (some limit))).reply = .error fault ∧
      IsAddOverflow fault

/-- **A full sink is reported, and nothing else goes wrong**, for every reachable chunk, name, limit
and offset: the text as a whole decides, and not the pieces it is written in. -/
theorem reportsFullSink_of_reachable {c : Chunk} (hc : c.Reachable) (limit : Nat) :
    ReportsFullSink c limit := by
  constructor
  case listing_iff =>
    intro name
    obtain ⟨t, hwrites⟩ := exists_writes_write hc.size_lt_bound name
    exact hwrites.reply_eq_ok_iff limit
  case listing =>
    intro name
    obtain ⟨t, hwrites⟩ := exists_writes_write hc.size_lt_bound name
    exact hwrites.keepsLimit limit
  case line_iff =>
    intro offset hoffset
    obtain ⟨next, hnext⟩ := lineReply_of_ne_last hc (by omega) (Nat.ne_of_lt hoffset)
    have hwrites := writes_writeAt c offset
    rw [hnext] at hwrites
    exact ⟨next, hwrites.reply_fresh, hwrites.reply_eq_ok_iff limit⟩
  case line => exact fun offset _ => (writes_writeAt c offset).keepsLimit limit
  case last =>
    intro hle
    have hwrites := writes_writeAt c (Size.bound - 1)
    refine ⟨.overflow .add, ?_, isAddOverflow_iff.2 rfl⟩
    rw [((hwrites.keepsLimit limit).of_le hle).1, hwrites.reply_fresh, lineReply_last]

/-- A chunk of a single instruction. -/
def lone : Chunk := Chunk.empty.after [.writeInstruction .ret 1]

/-- A name of one character that takes up two bytes: its listing has 28 characters and needs room
for 29 bytes.  With one byte less, the last piece is refused, which ends the line. -/
theorem reportsFullSink_of_lone :
    lone.Reachable ∧ (text ⟨lone, some ['é']⟩).length = 28 ∧
      (Listing.write ⟨lone, some ['é']⟩ (.fresh (some 28))).reply = .error .refused ∧
      (Listing.write ⟨lone, some ['é']⟩ (.fresh (some 28))).state.text =
        "== é ==\n0000    1 OP_RETURN" ∧
      (Listing.write ⟨lone, some ['é']⟩ (.fresh (some 29))).reply = .ok () := by
  have hlone : lone.Reachable := Chunk.reachable_empty.after _
  have hbytes : (Listing.write ⟨lone, some ['é']⟩ (.fresh none)).state.text.utf8ByteSize = 29 := by
    decide +kernel
  have htight := (reportsFullSink_of_reachable hlone 28).listing (some ['é'])
  have hwide := (reportsFullSink_of_reachable hlone 29).listing_iff (some ['é'])
  refine ⟨hlone, by decide +kernel, ?_, by decide +kernel, ?_⟩
  · exact (htight.of_lt (by rw [hbytes]; decide)).1
  · exact hwide.2 (by rw [hbytes])

end Listing

end Bytecode
