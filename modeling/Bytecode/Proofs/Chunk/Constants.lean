import Bytecode.Proofs.Chunk.Operations
import Bytecode.Proofs.Session.Refinement

/-!
# Constants keep the operands that name them

A chunk accepts constants as long as an operand can name one more.  The
constants that it has accepted since it was last freed are all that its pool
holds, each under the number of those accepted before it.

* `Chunk.acceptance` — how the accepted constants of each chunk of a session go
  on.
* `Chunk.HoldsConstants` — the pool is the one that the accepted constants fill.
  Every command keeps this (`refines_acceptance`), and none that has no reply
  adds to them (`silent_acceptance`).
* `Chunk.Adds` — what adding a constant does, then and later.
* `Chunk.adds_of_session` — what holds of the constants of every chunk of a
  session, with a log and without one.
-/

namespace Bytecode.Chunk

open Session (ChunkCommand)

/-! ## Accepted constants -/

/-- The accepted constants after one more has been offered. -/
def accept (accepted : List Value) (v : Value) : List Value :=
  if accepted.length < constantLimit then accepted ++ [v] else accepted

/-- The constants that a chunk has accepted since it was last freed. -/
def acceptance : Session.Rule ChunkCommand (List Value) where
  start := []
  act command accepted :=
    match command with
    | .addConstant v => accept accepted v
    | .addCount n => (Session.wholeNumbers n).foldl accept accepted
    | _ => accepted

theorem prefix_accept (accepted : List Value) (v : Value) : accepted <+: accept accepted v := by
  unfold accept
  split
  · exact List.prefix_append _ _
  · exact List.prefix_refl _

theorem prefix_foldl_accept (accepted vs : List Value) : accepted <+: vs.foldl accept accepted := by
  induction vs generalizing accepted with
  | nil => exact List.prefix_refl _
  | cons v rest ih => exact (prefix_accept accepted v).trans (ih _)

/-- No command takes back an accepted constant. -/
theorem prefix_act_acceptance (command : ChunkCommand) (accepted : List Value) :
    accepted <+: acceptance.act command accepted := by
  cases command with
  | addConstant v => exact prefix_accept accepted v
  | addCount n => exact prefix_foldl_accept accepted _
  | _ => exact List.prefix_refl _

/-! ## What every command keeps -/

/-- The pool of a chunk is the one that its accepted constants fill. -/
structure HoldsConstants (c : Chunk) (accepted : List Value) : Prop where
  constants : c.constants = ⟨.ofList accepted⟩
  length_le : accepted.length ≤ constantLimit

variable {c : Chunk} {accepted : List Value}

theorem holdsConstants_empty : HoldsConstants empty [] := ⟨rfl, Nat.zero_le _⟩

theorem HoldsConstants.size_eq (h : HoldsConstants c accepted) :
    c.constants.size = accepted.length := by
  rw [h.constants]
  rfl

theorem HoldsConstants.eq_withConstants (h : HoldsConstants c accepted) :
    c = c.withConstants accepted := by
  obtain ⟨code, lines, constants⟩ := c
  obtain ⟨rfl, _⟩ := h
  rfl

theorem holdsConstants_concat (c : Chunk) (v : Value) (h : accepted.length < constantLimit) :
    HoldsConstants (c.withConstants (accepted ++ [v])) (accepted ++ [v]) :=
  ⟨rfl, Buffer.length_concat_le h⟩

/-- A chunk that can accept a constant replies with the operand that names it. -/
theorem HoldsConstants.addConstant_of_lt (h : HoldsConstants c accepted) (v : Value)
    (hlt : accepted.length < constantLimit) :
    c.addConstant v =
      .done (c.withConstants (accepted ++ [v])) (.ok (UInt8.ofNat accepted.length))
        (Buffer.growth Value accepted.length ++
          [.constantAdded v (UInt8.ofNat accepted.length)]) := by
  rw [← addConstant_withConstants c v hlt, ← h.eq_withConstants]

theorem HoldsConstants.addConstant_of_eq (h : HoldsConstants c accepted) (v : Value)
    (heq : accepted.length = constantLimit) : c.addConstant v = .done c (.error poolFull) [] :=
  addConstant_of_full v (by rw [h.size_eq, heq])

theorem HoldsConstants.addConstant (h : HoldsConstants c accepted) (v : Value) :
    HoldsConstants (c.addConstant v).state (accept accepted v) := by
  rcases Nat.lt_or_eq_of_le h.length_le with hlt | heq
  · rw [h.addConstant_of_lt v hlt, accept, if_pos hlt]
    exact holdsConstants_concat c v hlt
  · rw [h.addConstant_of_eq v heq, accept, if_neg (by omega)]
    exact h

/-- A chunk that does not accept a constant stays as it is. -/
theorem HoldsConstants.state_addConstant_of_error (h : HoldsConstants c accepted) {v : Value}
    {e : ChunkError} (he : (c.addConstant v).reply = .ok (.error e)) :
    (c.addConstant v).state = c := by
  rcases Nat.lt_or_eq_of_le h.length_le with hlt | heq
  · rw [h.addConstant_of_lt v hlt] at he
    cases he
  · rw [h.addConstant_of_eq v heq]
    rfl

/-- Adding a constant has a reply, be it an error. -/
theorem HoldsConstants.reply_addConstant (h : HoldsConstants c accepted) (v : Value) :
    (c.addConstant v).reply.isOk = true := by
  rcases Nat.lt_or_eq_of_le h.length_le with hlt | heq
  · rw [h.addConstant_of_lt v hlt]
    rfl
  · rw [h.addConstant_of_eq v heq]
    rfl

theorem HoldsConstants.addConstants (h : HoldsConstants c accepted) (vs : List Value) :
    HoldsConstants (c.addConstants vs).state (vs.foldl accept accepted) ∧
      (c.addConstants vs).reply.isOk = true := by
  induction vs generalizing c accepted with
  | nil => exact ⟨h, rfl⟩
  | cons v rest ih =>
    have hreply := h.reply_addConstant v
    cases hr : (c.addConstant v).reply with
    | error e =>
      rw [hr] at hreply
      cases hreply
    | ok r =>
      obtain ⟨hstate, hrest⟩ := ih (h.addConstant v)
      rw [Chunk.addConstants, Outcome.andThen_of_ok _ hr]
      exact ⟨hstate, (Outcome.isOk_reply_map ..).trans hrest⟩

theorem HoldsConstants.of_constants_eq {d : Chunk} (h : HoldsConstants c accepted)
    (hsame : d.constants = c.constants) : HoldsConstants d accepted :=
  ⟨hsame.trans h.constants, h.length_le⟩

theorem HoldsConstants.clone (h : HoldsConstants c accepted) :
    HoldsConstants c.clone.1 accepted := by
  refine ⟨?_, h.length_le⟩
  show c.constants.clone.1 = _
  rw [h.constants, Pool.clone, Buffer.clone_ofList]

theorem holdsConstants_free (c : Chunk) : HoldsConstants c.free.1 [] :=
  ⟨congrArg Pool.mk (Buffer.fst_free c.constants.values), Nat.zero_le _⟩

theorem refines_acceptance : Session.Refines Session.chunks acceptance HoldsConstants where
  act command c accepted h := by
    cases command with
    | addConstant v => exact h.addConstant v
    | addCount n => exact (h.addConstants _).1
    | write bytes line => exact h.of_constants_eq (c.constants_writeAll bytes line)
    | writeOpcode op line => exact h.of_constants_eq (c.constants_write op.byte line)
    | writeInstruction i line => exact h.of_constants_eq (c.constants_writeAll i.encode line)
    | listing | listAt | print | printAt =>
      refine h.of_constants_eq ?_
      simp only [Session.chunks, Session.actOnChunk, state_written]
    | code | lines | lineAt | lookup | constants | entries => exact h
  clone _ _ h := h.clone
  free c _ _ := holdsConstants_free c

theorem silent_acceptance : Session.Silent Session.chunks acceptance HoldsConstants := by
  intro command c accepted h hreply
  cases command with
  | addConstant v =>
    have hmap : (c.addConstant v).reply.isOk = false :=
      (Outcome.isOk_reply_map ..).symm.trans hreply
    rw [h.reply_addConstant v] at hmap
    cases hmap
  | addCount n =>
    have hmap : (c.addConstants _).reply.isOk = false :=
      (Outcome.isOk_reply_map ..).symm.trans hreply
    rw [(h.addConstants _).2] at hmap
    cases hmap
  | _ => rfl

/-! ## What can be seen -/

/-- What can be seen of a chunk that has accepted some constants. -/
structure Accepted (c : Chunk) (accepted : List Value) : Prop where
  constants : c.constants.toList = accepted
  size_le : c.constants.size ≤ 256
  lookup_eq_none : ∀ id : UInt8, c.constants.size ≤ id.toNat → c.lookup id = none

/-- What adding a constant to one of the chunks of a session does, given what the chunk has
accepted so far. -/
structure Adds (logged : Bool) (number : Nat) (c : Chunk) (accepted : List Value) (v : Value)
    (objects : List Chunk) (record : Session.Record Chunk Session.ChunkReply)
    (objects' : List Chunk) : Prop where
  succeeds_iff : (∃ id, record.reply = .ok (.own (.constant (.ok id)))) ↔ c.constants.size < 256
  /-- The constants are numbered in the order in which they were accepted. -/
  of_ok : ∀ id, record.reply = .ok (.own (.constant (.ok id))) →
    id.toNat = accepted.length ∧ record.state.constants.toList = accepted ++ [v] ∧
      objects' = objects.set number record.state
  /-- A full pool is an error, which leaves everything as it was. -/
  of_full : 256 ≤ c.constants.size → ∃ e, record.reply = .ok (.own (.constant (.error e))) ∧
    e.kind = .poolLimit ∧ e.source.isSome ∧ record.state = c ∧ objects' = objects
  /-- The operand names the constant until the chunk is freed. -/
  stays : ∀ id, record.reply = .ok (.own (.constant (.ok id))) →
    ∀ rest records objects'', Session.play Session.chunks logged objects' rest =
      some (records, objects'') → (number, .free) ∉ rest →
    ∃ d, objects''[number]? = some d ∧ d.lookup id = some v

theorem HoldsConstants.lookup_eq (h : HoldsConstants c accepted) (id : UInt8) :
    c.lookup id = accepted[id.toNat]? := by
  rw [lookup, h.constants, Pool.get?, Buffer.get?_ofList]

theorem getElem?_concat_of_ne {α : Type} {l : List α} {i : Nat} (h : i ≠ l.length) (a : α) :
    (l ++ [a])[i]? = l[i]? := by
  by_cases hlt : i < l.length
  · rw [List.getElem?_append_left hlt]
  · have hout : l[i]? = none := List.getElem?_eq_none (by omega)
    have hout' : (l ++ [a])[i]? = none := List.getElem?_eq_none (by simp; omega)
    rw [hout, hout']

/-- A new constant is found under the operand that names it; this named none before, and the others
name what they did. -/
theorem HoldsConstants.lookup_addConstant (h : HoldsConstants c accepted) {v : Value} {id : UInt8}
    (hreply : (c.addConstant v).reply = .ok (.ok id)) :
    c.lookup id = none ∧ (c.addConstant v).state.lookup id = some v ∧
      ∀ other, other ≠ id → (c.addConstant v).state.lookup other = c.lookup other := by
  rcases Nat.lt_or_eq_of_le h.length_le with hlt | heq
  · have hadd := h.addConstant_of_lt v hlt
    have hnext := holdsConstants_concat c v hlt
    rw [hadd] at hreply ⊢
    cases hreply
    have hid : (UInt8.ofNat accepted.length).toNat = accepted.length :=
      UInt8.toNat_ofNat_of_lt' hlt
    refine ⟨?_, ?_, ?_⟩
    · rw [h.lookup_eq, hid, List.getElem?_length]
    · show (c.withConstants (accepted ++ [v])).lookup _ = _
      rw [hnext.lookup_eq, hid, List.getElem?_concat_length]
    · intro other hother
      have hne : other.toNat ≠ accepted.length := by
        intro heq
        apply hother
        rw [← heq, UInt8.ofNat_toNat]
      show (c.withConstants (accepted ++ [v])).lookup _ = _
      rw [hnext.lookup_eq, h.lookup_eq, getElem?_concat_of_ne hne]
  · rw [h.addConstant_of_eq v heq] at hreply
    cases hreply

theorem HoldsConstants.toAccepted (h : HoldsConstants c accepted) : Accepted c accepted where
  constants := by
    rw [h.constants]
    rfl
  size_le := by
    rw [h.size_eq]
    exact h.length_le
  lookup_eq_none id hid := by
    rw [h.lookup_eq, List.getElem?_eq_none]
    rwa [← h.size_eq]

/-- The storage of a pool that can accept a constant is far from any limit. -/
theorem fits_growth {n : Nat} (h : n < constantLimit) : ∀ e ∈ Buffer.growth Value n, e.Fits := by
  intro e he
  unfold Buffer.growth at he
  split at he
  · rw [List.mem_singleton.1 he]
    have hnew : Buffer.capacityFor (n + 1) ≤ 8 * 2 ^ 5 := Buffer.capacityFor_le_iff.2 h
    have hbytes : Element.bytes Value = 8 := rfl
    unfold constantLimit at h
    simp only [Buffer.resized, Event.Fits, hbytes, Size.bound]
    omega
  · cases he

theorem HoldsConstants.fits_addConstant (h : HoldsConstants c accepted) (v : Value) :
    ∀ e ∈ (c.addConstant v).events, e.Fits := by
  intro e he
  rcases Nat.lt_or_eq_of_le h.length_le with hlt | heq
  · rw [h.addConstant_of_lt v hlt] at he
    rcases List.mem_append.1 he with hgrow | hadd
    · exact fits_growth hlt e hgrow
    · rw [List.mem_singleton.1 hadd]
      trivial
  · rw [h.addConstant_of_eq v heq] at he
    cases he

/-- An accepted constant stays under its number until the chunk is freed. -/
theorem lookup_play {logged : Bool} {objects objects' : List Chunk} {accounts : List (List Value)}
    (hR : List.Forall₂ HoldsConstants objects accounts) {number : Nat} {accepted : List Value}
    (haccount : accounts[number]? = some accepted) {id : UInt8} {v : Value}
    (hv : accepted[id.toNat]? = some v) {steps : List (Nat × Session.Command ChunkCommand)}
    {records : List (Session.Record Chunk Session.ChunkReply)}
    (hplay : Session.play Session.chunks logged objects steps = some (records, objects'))
    (hfree : (number, .free) ∉ steps) :
    ∃ d, objects'[number]? = some d ∧ d.lookup id = some v := by
  obtain ⟨accounts', hrun, hR'⟩ := refines_acceptance.play_replied silent_acceptance hR hplay
  have hreplied : (number, .free) ∉ Session.replied steps records :=
    fun hmem => hfree (Session.mem_of_mem_replied hmem)
  -- what is accepted later comes behind, so the constants so far stay in front
  have hkeeps : ∀ command later, accepted <+: later → accepted <+: acceptance.act command later :=
    fun command later h => h.trans (prefix_act_acceptance command later)
  obtain ⟨later, hlater, hprefix⟩ :=
    Session.Rule.run_keeps hkeeps hreplied hrun haccount (List.prefix_refl accepted)
  obtain ⟨d, hd, hholds⟩ := exists_getElem?_eq hR'.flip hlater
  refine ⟨d, hd, ?_⟩
  obtain ⟨hlt, hv⟩ := List.getElem?_eq_some_iff.1 hv
  rw [HoldsConstants.lookup_eq hholds, List.prefix_iff_getElem?.1 hprefix _ hlt, hv]

section Step

variable {objects : List Chunk} {number : Nat}

/-- Adding a constant to a chunk that can accept it. -/
theorem HoldsConstants.adds_of_lt (h : HoldsConstants c accepted) {accounts : List (List Value)}
    (logged : Bool) (hR : List.Forall₂ HoldsConstants objects accounts)
    (hobject : objects[number]? = some c) (haccount : accounts[number]? = some accepted)
    (v : Value) (hlt : accepted.length < constantLimit) :
    ∃ record objects', Session.step Session.chunks logged number (.own (.addConstant v)) objects =
      some (record, objects') ∧ Adds logged number c accepted v objects record objects' := by
  obtain ⟨lines, hlines⟩ := Session.exists_record logged (h.fits_addConstant v)
  refine ⟨_, _, Session.step_of_recorded (k := Session.chunks) _ hobject hlines, ?_⟩
  simp only [Session.perform, Session.chunks, Session.actOnChunk, h.addConstant_of_lt v hlt,
    Option.toList_none, List.append_nil]
  have hid : (UInt8.ofNat accepted.length).toNat = accepted.length :=
    UInt8.toNat_ofNat_of_lt' hlt
  constructor
  case succeeds_iff => exact iff_of_true ⟨_, rfl⟩ (h.size_eq ▸ hlt)
  case of_ok =>
    rintro _ ⟨⟩
    exact ⟨hid, rfl, rfl⟩
  case of_full =>
    intro hfull
    rw [h.size_eq] at hfull
    exact absurd hlt (Nat.not_lt.2 hfull)
  case stays =>
    -- the later steps begin with the constant in place, and its number is its position
    rintro _ ⟨⟩ rest records objects'' hplay hfree
    have hnumber : number < accounts.length := (List.getElem?_eq_some_iff.1 haccount).1
    refine lookup_play (forall₂_set hR number (holdsConstants_concat c v hlt))
      (List.getElem?_set_self hnumber) ?_ hplay hfree
    rw [hid, List.getElem?_concat_length]

/-- Adding a constant to a chunk whose pool is full. -/
theorem HoldsConstants.adds_of_eq (h : HoldsConstants c accepted) (logged : Bool)
    (hobject : objects[number]? = some c) (v : Value) (heq : accepted.length = constantLimit) :
    ∃ record objects', Session.step Session.chunks logged number (.own (.addConstant v)) objects =
      some (record, objects') ∧ Adds logged number c accepted v objects record objects' := by
  obtain ⟨lines, hlines⟩ := Session.exists_record logged (h.fits_addConstant v)
  refine ⟨_, _, Session.step_of_recorded (k := Session.chunks) _ hobject hlines, ?_⟩
  obtain ⟨hnumber, rfl⟩ := List.getElem?_eq_some_iff.1 hobject
  simp only [Session.perform, Session.chunks, Session.actOnChunk, h.addConstant_of_eq v heq,
    Option.toList_none, List.append_nil]
  constructor
  case succeeds_iff =>
    refine iff_of_false ?_ ?_
    · rintro ⟨id, ⟨⟩⟩
    · rw [h.size_eq, heq]
      exact Nat.lt_irrefl _
  case of_ok => rintro _ ⟨⟩
  case of_full => exact fun _ => ⟨poolFull, rfl, rfl, rfl, rfl, List.set_getElem_self ..⟩
  case stays => rintro _ ⟨⟩

end Step

/-- **Constants keep the operands that name them.**  Whatever has happened in a session, every chunk
holds the constants that it has accepted, and adding another one has success iff there are fewer
than 256; from then on its operand names it until the chunk is freed. -/
theorem adds_of_session {logged : Bool} {steps : List (Nat × Session.Command ChunkCommand)}
    {records : List (Session.Record Chunk Session.ChunkReply)} {objects : List Chunk}
    (hplay : Session.play Session.chunks logged [empty] steps = some (records, objects)) :
    ∃ accounts, acceptance.run [acceptance.start] (Session.replied steps records) = some accounts ∧
      List.Forall₂ Accepted objects accounts ∧
      ∀ number c accepted v, objects[number]? = some c → accounts[number]? = some accepted →
        ∃ record objects',
          Session.step Session.chunks logged number (.own (.addConstant v)) objects =
            some (record, objects') ∧
          Adds logged number c accepted v objects record objects' := by
  obtain ⟨accounts, hrun, hR⟩ :=
    refines_acceptance.play_replied silent_acceptance (.cons holdsConstants_empty .nil) hplay
  refine ⟨accounts, hrun, hR.imp fun _ _ h => h.toAccepted, ?_⟩
  intro number c accepted v hobject haccount
  obtain ⟨_, hsame, h⟩ := exists_getElem?_eq hR hobject
  cases hsame.symm.trans haccount
  rcases Nat.lt_or_eq_of_le h.length_le with hlt | heq
  · exact h.adds_of_lt logged hR hobject haccount v hlt
  · exact h.adds_of_eq logged hobject v heq

/-- A constant added to a copy is not added to the source. -/
theorem adds_of_session_of_copy :
    ∃ records objects, Session.play Session.chunks false [empty]
        [(0, .own (.addConstant .zero)), (0, .clone), (1, .own (.addConstant .infinity))] =
      some (records, objects) ∧
      List.Forall₂ Accepted objects [[.zero], [.zero, .infinity]] := by
  have hplay : Session.play Session.chunks false [empty]
      [(0, .own (.addConstant .zero)), (0, .clone), (1, .own (.addConstant .infinity))] =
    some (_, _) := rfl
  obtain ⟨accounts, hrun, hall, _⟩ := adds_of_session hplay
  have haccounts : some accounts = some [[.zero], [.zero, .infinity]] := hrun.symm.trans rfl
  cases haccounts
  exact ⟨_, _, hplay, hall⟩

end Bytecode.Chunk
