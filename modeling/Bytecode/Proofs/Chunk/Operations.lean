import Bytecode.Proofs.Buffer.Growth
import Bytecode.Session.Chunk

/-!
# What the operations of a chunk do to its parts

Writing works on code and lines, adding works on constants, and neither
touches what the other one works on.

* `Chunk.constants_writeAll`, `Chunk.sameCode_addConstant`, `Chunk.state_written`
  — the parts that an operation leaves alone.
* `Chunk.holding` — the chunk to which some bytes have been written with their
  lines.  Writing to it leads to such a chunk again (`write_holding`,
  `state_writeAll_holding`), up to the one that takes no further byte
  (`write_holding_full`).
* `Chunk.withConstants` — a chunk with a pool that has been filled; adding to it
  leads to such a chunk again (`addConstant_withConstants`), up to the one whose
  pool is full (`addConstant_of_full`).
-/

namespace Bytecode

/-- What holds of the object at every stage of an operation holds at its end. -/
theorem Outcome.state_andThen {ε σ ρ ρ' : Type} {P : σ → Prop} {o : Outcome ε σ ρ}
    {next : ρ → σ → Outcome ε σ ρ'} (h : P o.state) (hnext : ∀ r s, P s → P (next r s).state) :
    P (o.andThen next).state := by
  obtain ⟨reply, state, events⟩ := o
  cases reply with
  | error e => exact h
  | ok r => exact hnext r state h

theorem Outcome.eq_done {ε σ ρ : Type} {o : Outcome ε σ ρ} {r : ρ} (h : o.reply = .ok r) :
    o = .done o.state r o.events := by
  obtain ⟨reply, state, events⟩ := o
  cases h
  rfl

namespace Chunk

/-! ## What is left alone -/

theorem constants_write (c : Chunk) (byte : UInt8) (line : Int32) :
    (c.write byte line).state.constants = c.constants := by
  refine Outcome.state_andThen (P := fun s : Chunk => s.constants = c.constants) rfl ?_
  intro _ s hs
  exact Outcome.state_andThen (P := fun s : Chunk => s.constants = c.constants) hs fun _ _ h => h

theorem constants_writeAll (c : Chunk) (bytes : List UInt8) (line : Int32) :
    (c.writeAll bytes line).state.constants = c.constants := by
  induction bytes generalizing c with
  | nil => rfl
  | cons byte rest ih =>
    refine Outcome.state_andThen (P := fun s : Chunk => s.constants = c.constants)
      (c.constants_write byte line) ?_
    intro _ s hs
    rw [ih s, hs]

/-- Adding a constant leaves code and lines alone. -/
theorem sameCode_addConstant (c : Chunk) (v : Value) :
    (c.addConstant v).state.code = c.code ∧ (c.addConstant v).state.lines = c.lines := by
  unfold addConstant
  dsimp only
  split
  · exact Outcome.state_andThen (P := fun s : Chunk => s.code = c.code ∧ s.lines = c.lines)
      ⟨rfl, rfl⟩ fun _ _ h => h
  · exact ⟨rfl, rfl⟩

theorem sameCode_addConstants (c : Chunk) (vs : List Value) :
    (c.addConstants vs).state.code = c.code ∧ (c.addConstants vs).state.lines = c.lines := by
  induction vs generalizing c with
  | nil => exact ⟨rfl, rfl⟩
  | cons v rest ih =>
    refine Outcome.state_andThen (P := fun s : Chunk => s.code = c.code ∧ s.lines = c.lines)
      (c.sameCode_addConstant v) ?_
    rintro _ s ⟨hcode, hlines⟩
    exact ⟨(ih s).1.trans hcode, (ih s).2.trans hlines⟩

/-- Writing about a chunk leaves it as it is, whether the sink has room or not. -/
theorem state_written {ρ : Type} (c : Chunk) (o : Outcome WriteFault Sink ρ)
    (reply : ρ → String → Session.ChunkReply) : (Session.written c o reply).state = c := by
  unfold Session.written
  split <;> rfl

/-! ## Writing -/

/-- The chunk to which some bytes have been written with their lines. -/
def holding (written : List (UInt8 × Int32)) (constants : Pool) : Chunk :=
  ⟨.ofList (written.map Prod.fst), .ofList (written.map Prod.snd), constants⟩

variable {written : List (UInt8 × Int32)} {constants : Pool}

/-- What happens when a byte is written behind `n` others. -/
def growth (n : Nat) : List Event :=
  Buffer.growth UInt8 n ++ (Buffer.growth Int32 n ++
    if n = Buffer.capacityFor n then [.chunkGrew n (Buffer.capacityFor (n + 1))] else [])

theorem growth_eq (n : Nat) :
    growth n = Buffer.growth UInt8 n ++ (Buffer.growth Int32 n ++
      if Buffer.capacityFor (n + 1) = Buffer.capacityFor n then []
      else [.chunkGrew (Buffer.capacityFor n) (Buffer.capacityFor (n + 1))]) := by
  by_cases hfull : n = Buffer.capacityFor n
  · rw [growth, if_pos hfull, if_neg (mt Buffer.capacityFor_succ_eq_iff.1 (not_not.2 hfull)),
      ← hfull]
  · rw [growth, if_neg hfull, if_pos (Buffer.capacityFor_succ_eq_iff.2 hfull)]

theorem pushByte_holding (byte : UInt8) (h : written.length < Buffer.sizeLimit) :
    (holding written constants).pushByte byte =
      .done ⟨.ofList (written.map Prod.fst ++ [byte]), .ofList (written.map Prod.snd), constants⟩
        written.length (Buffer.growth UInt8 written.length) := by
  have hpush := Buffer.push_ofList (l := written.map Prod.fst) byte (by simpa using h)
  rw [List.length_map] at hpush
  rw [holding, pushByte, hpush]
  rfl

theorem pushLine_ofList (code : Buffer UInt8) {lines : List Int32} (line : Int32)
    (constants : Pool) (h : lines.length < Buffer.sizeLimit) :
    pushLine ⟨code, .ofList lines, constants⟩ line =
      .done ⟨code, .ofList (lines ++ [line]), constants⟩ lines.length
        (Buffer.growth Int32 lines.length) := by
  rw [pushLine, Buffer.push_ofList line h]
  rfl

theorem capacity_holding :
    (holding written constants).capacity = Buffer.capacityFor written.length := by
  rw [holding, capacity, Buffer.capacity_ofList, List.length_map]

/-- A byte and its line come last, and both buffers grow at once. -/
theorem write_holding (byte : UInt8) (line : Int32) (h : written.length < Buffer.sizeLimit) :
    (holding written constants).write byte line =
      .done (holding (written ++ [(byte, line)]) constants) () (growth written.length) := by
  have hlen : (written.map Prod.snd).length = written.length := List.length_map ..
  have hboth : (holding (written ++ [(byte, line)]) constants) =
      ⟨.ofList (written.map Prod.fst ++ [byte]), .ofList (written.map Prod.snd ++ [line]),
        constants⟩ := by
    simp [holding]
  have hline := pushLine_ofList (.ofList (written.map Prod.fst ++ [byte])) line constants
    (hlen.symm ▸ h)
  rw [← hboth, hlen] at hline
  simp only [write, pushByte_holding byte h, Outcome.andThen_done, hline, capacity_holding,
    List.length_append, List.length_singleton]
  rw [growth_eq]
  rfl

/-- A chunk at the limit takes no byte, and stays as it is. -/
theorem write_holding_full (byte : UInt8) (line : Int32)
    (h : written.length = Buffer.sizeLimit) :
    (holding written constants).write byte line =
      .stop (holding written constants) .multiply [] := by
  have hpush := Buffer.push_ofList_full (l := written.map Prod.fst) byte (by rwa [List.length_map])
  have hbyte : (holding written constants).pushByte byte =
      .stop (holding written constants) .multiply [] := by
    rw [holding, pushByte, hpush]
    rfl
  rw [write, hbyte]
  rfl

/-- Bytes are written one after the other as long as there is room. -/
theorem state_writeAll_holding (constants : Pool) (bytes : List UInt8) (line : Int32)
    (h : written.length ≤ Buffer.sizeLimit) :
    ((holding written constants).writeAll bytes line).state =
      holding ((written ++ bytes.map (·, line)).take Buffer.sizeLimit) constants := by
  induction bytes generalizing written with
  | nil =>
    rw [List.map_nil, List.append_nil, List.take_of_length_le h]
    rfl
  | cons byte rest ih =>
    rw [writeAll]
    rcases Nat.lt_or_eq_of_le h with hroom | hfull
    · rw [write_holding byte line hroom, Outcome.andThen_done]
      rw [ih (Buffer.length_concat_le hroom), List.append_assoc]
      rfl
    · -- the first byte is turned away, and with it the others
      rw [write_holding_full byte line hfull, ← hfull, List.take_left]
      rfl

/-- Writing stops without a reply only where there is no room for the bytes. -/
theorem reply_writeAll_holding (constants : Pool) (bytes : List UInt8) (line : Int32)
    (h : written.length ≤ Buffer.sizeLimit) :
    ((holding written constants).writeAll bytes line).reply =
      if written.length + bytes.length ≤ Buffer.sizeLimit then .ok () else .error .multiply := by
  induction bytes generalizing written with
  | nil =>
    rw [List.length_nil, Nat.add_zero, if_pos h]
    rfl
  | cons byte rest ih =>
    rw [writeAll]
    rcases Nat.lt_or_eq_of_le h with hroom | hfull
    · rw [write_holding byte line hroom, Outcome.andThen_done]
      rw [ih (Buffer.length_concat_le hroom), List.length_append, List.length_singleton,
        List.length_cons, Nat.add_assoc, Nat.add_comm 1]
    · rw [write_holding_full byte line hfull, if_neg (by rw [List.length_cons]; omega)]
      rfl

/-! ## Adding constants -/

/-- The chunk with the same code whose pool has been filled with some constants. -/
def withConstants (c : Chunk) (values : List Value) : Chunk := ⟨c.code, c.lines, ⟨.ofList values⟩⟩

/-- A pool with room takes a constant, which is named by the number of those before it. -/
theorem addConstant_withConstants (c : Chunk) {values : List Value} (v : Value)
    (h : values.length < constantLimit) :
    (c.withConstants values).addConstant v =
      .done (c.withConstants (values ++ [v])) (.ok (UInt8.ofNat values.length))
        (Buffer.growth Value values.length ++ [.constantAdded v (UInt8.ofNat values.length)]) := by
  have hlimit : values.length < Buffer.sizeLimit := by
    unfold constantLimit at h
    unfold Buffer.sizeLimit
    omega
  have hpush : (c.withConstants values).pushConstant v =
      .done (c.withConstants (values ++ [v])) values.length
        (Buffer.growth Value values.length) := by
    rw [withConstants, pushConstant, Pool.write, Buffer.push_ofList v hlimit]
    rfl
  have hsize : (c.withConstants values).constants.size = values.length := rfl
  simp only [addConstant, hsize]
  rw [if_pos h, hpush]
  rfl

theorem addConstant_of_full {c : Chunk} (v : Value) (h : constantLimit ≤ c.constants.size) :
    c.addConstant v = .done c (.error poolFull) [] := by
  simp only [addConstant]
  rw [if_neg (Nat.not_lt.2 h)]

end Chunk

end Bytecode
