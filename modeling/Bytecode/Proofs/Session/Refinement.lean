import Bytecode.Session.Basic
import Mathlib.Data.List.Forall2

/-!
# Sessions follow what is said of one object

A statement about the objects of a session is one about what each command does
to one object.  It is said by a rule, which keeps an account of every object,
and shown by a relation between objects and accounts that every command keeps.

* `Session.play` — a session with the objects that it leaves; its records are
  those of `Session.run` (`run_eq_play`).
* `Session.exists_play_without_log` — keeping a log leads to no new objects.
* `Session.Rule` — what the commands of a session do to accounts; a copy begins
  with the account of its source, and keeps its own from then on.
* `Session.Refines.play` — in a session without a log, the objects are related
  to their accounts at every stage.
* `Session.Refines.play_replied` — so they are in a session with a log, if the
  accounts are those of the steps that had a reply.
* `Session.Refines.forall_play` — every object has an account that it is related
  to, with a log and without one.
* `Session.Rule.run_keeps` — what every command keeps of an account stays until
  the object is freed, whatever is done to the others.
-/

namespace Bytecode

/-! ## Related lists -/

section Related

variable {α β : Type} {R : α → β → Prop} {l : List α} {m : List β}

theorem rel_getElem? (h : List.Forall₂ R l m) (i : Nat) : Option.Rel R l[i]? m[i]? := by
  induction h generalizing i with
  | nil => exact .none
  | cons hab _ ih =>
    cases i with
    | zero => exact .some hab
    | succ i => simpa using ih i

theorem exists_getElem?_eq (h : List.Forall₂ R l m) {i : Nat} {a : α} (ha : l[i]? = some a) :
    ∃ b, m[i]? = some b ∧ R a b := by
  have hi := rel_getElem? h i
  rw [ha] at hi
  generalize m[i]? = b? at hi ⊢
  cases hi with
  | some hab => exact ⟨_, rfl, hab⟩

theorem forall₂_set (h : List.Forall₂ R l m) (i : Nat) {a : α} {b : β} (hab : R a b) :
    List.Forall₂ R (l.set i a) (m.set i b) := by
  induction h generalizing i with
  | nil => exact .nil
  | cons hhead htail ih =>
    cases i with
    | zero => exact .cons hab htail
    | succ i => exact .cons hhead (ih i)

theorem forall₂_toList {a : Option α} {b : Option β} (h : Option.Rel R a b) :
    List.Forall₂ R a.toList b.toList := by
  cases h with
  | none => exact .nil
  | some hab => exact .cons hab .nil

end Related

theorem Outcome.isOk_reply_map {ε σ ρ ρ' : Type} (f : ρ → ρ') (o : Outcome ε σ ρ) :
    (o.map f).reply.isOk = o.reply.isOk := by
  obtain ⟨reply, state, events⟩ := o
  cases reply <;> rfl

namespace Session

variable {σ γ ρ τ : Type}

/-! ## Sessions with the objects that they leave -/

/-- The records of a session, and its objects at the end. -/
def play (k : Kind σ γ ρ) (logged : Bool) (objects : List σ) :
    List (Nat × Command γ) → Option (List (Record σ ρ) × List σ)
  | [] => some ([], objects)
  | (number, command) :: rest => do
    let (record, objects) ← step k logged number command objects
    let (records, objects) ← play k logged objects rest
    return (record :: records, objects)

theorem play_cons {k : Kind σ γ ρ} {logged : Bool} {objects objects' : List σ} {number : Nat}
    {command : Command γ} {record : Record σ ρ}
    (h : step k logged number command objects = some (record, objects'))
    (rest : List (Nat × Command γ)) :
    play k logged objects ((number, command) :: rest) =
      (play k logged objects' rest).map fun p => (record :: p.1, p.2) := by
  rw [play, h]
  cases hrest : play k logged objects' rest <;> simp [hrest]

theorem run_eq_play (k : Kind σ γ ρ) (logged : Bool) (objects : List σ)
    (steps : List (Nat × Command γ)) :
    run k logged objects steps = (play k logged objects steps).map Prod.fst := by
  induction steps generalizing objects with
  | nil => rfl
  | cons s rest ih =>
    obtain ⟨number, command⟩ := s
    cases hs : step k logged number command objects with
    | none => simp [run, play, hs]
    | some next =>
      obtain ⟨record, objects'⟩ := next
      cases hp : play k logged objects' rest with
      | none => simp [run, play, hs, hp, ih]
      | some p => simp [run, play, hs, hp, ih]

/-- A session goes on with the objects that it has left. -/
theorem play_append {k : Kind σ γ ρ} {logged : Bool} {objects between objects' : List σ}
    {steps more : List (Nat × Command γ)} {records records' : List (Record σ ρ)}
    (h : play k logged objects steps = some (records, between))
    (hmore : play k logged between more = some (records', objects')) :
    play k logged objects (steps ++ more) = some (records ++ records', objects') := by
  induction steps generalizing objects records with
  | nil =>
    cases h
    exact hmore
  | cons s rest ih =>
    obtain ⟨number, command⟩ := s
    cases hs : step k logged number command objects with
    | none => simp [play, hs] at h
    | some next =>
      obtain ⟨record, objects₁⟩ := next
      rw [play_cons hs, Option.map_eq_some_iff] at h
      obtain ⟨⟨records₁, between₁⟩, hrest, hp⟩ := h
      cases hp
      rw [List.cons_append, play_cons hs, ih hrest]
      rfl

/-! ## Accounts -/

/-- What the commands of a session do to the account that is kept of an object. -/
structure Rule (γ τ : Type) where
  /-- The account of a new object, and of a freed one. -/
  start : τ
  act : γ → τ → τ

namespace Rule

/-- The account of an object after a command, and that of the copy if there is one. -/
def perform (m : Rule γ τ) (account : τ) : Command γ → τ × Option τ
  | .own command => (m.act command account, none)
  | .free => (m.start, none)
  | .clone => (account, some account)
  | .describe _ => (account, none)

/-- The accounts after a step. -/
def step (m : Rule γ τ) (number : Nat) (command : Command γ) (accounts : List τ) :
    Option (List τ) :=
  accounts[number]?.map fun account =>
    accounts.set number (m.perform account command).1 ++ (m.perform account command).2.toList

/-- The accounts after some steps. -/
def run (m : Rule γ τ) (accounts : List τ) : List (Nat × Command γ) → Option (List τ)
  | [] => some accounts
  | (number, command) :: rest => do
    let accounts ← m.step number command accounts
    m.run accounts rest

end Rule

/-! ## Objects and their accounts -/

/-- Objects stay related to their accounts. -/
structure Refines (k : Kind σ γ ρ) (m : Rule γ τ) (R : σ → τ → Prop) : Prop where
  act : ∀ command object account, R object account →
    R (k.act command object).state (m.act command account)
  clone : ∀ object account, R object account → R (k.clone object).1 account
  free : ∀ object account, R object account → R (k.free object).1 m.start

variable {k : Kind σ γ ρ} {m : Rule γ τ} {R : σ → τ → Prop}

theorem Refines.perform (h : Refines k m R) {object : σ} {account : τ} (hR : R object account)
    (others : Nat) (command : Command γ) :
    R (Session.perform k others object command).1.state (m.perform account command).1 ∧
      Option.Rel R (Session.perform k others object command).2 (m.perform account command).2 := by
  cases command with
  | own command => exact ⟨h.act command object account hR, .none⟩
  | free => exact ⟨h.free object account hR, .none⟩
  | clone => exact ⟨hR, .some (h.clone object account hR)⟩
  | describe spread => exact ⟨hR, .none⟩

theorem Refines.step (h : Refines k m R) {objects : List σ} {accounts : List τ}
    (hR : List.Forall₂ R objects accounts) (number : Nat) (command : Command γ) :
    Option.Rel (List.Forall₂ R) ((Session.step k false number command objects).map Prod.snd)
      (m.step number command accounts) := by
  have hslot := rel_getElem? hR number
  unfold Session.step Rule.step
  generalize objects[number]? = object? at hslot ⊢
  generalize accounts[number]? = account? at hslot ⊢
  cases hslot with
  | none => exact .none
  | some hab =>
    obtain ⟨hstate, hcopy⟩ := h.perform hab objects.length command
    exact .some (List.rel_append (forall₂_set hR number hstate) (forall₂_toList hcopy))

/-- **Objects follow their accounts.**  In a session without a log, the objects are related to
their accounts at every stage, and a step is out of the question for both or for none. -/
theorem Refines.play (h : Refines k m R) {objects : List σ} {accounts : List τ}
    (hR : List.Forall₂ R objects accounts) (steps : List (Nat × Command γ)) :
    Option.Rel (List.Forall₂ R) ((Session.play k false objects steps).map Prod.snd)
      (m.run accounts steps) := by
  induction steps generalizing objects accounts with
  | nil => exact .some hR
  | cons s rest ih =>
    obtain ⟨number, command⟩ := s
    have hstep := h.step hR number command
    simp only [Session.play, Rule.run]
    generalize Session.step k false number command objects = next at hstep ⊢
    generalize m.step number command accounts = next' at hstep ⊢
    cases next with
    | none =>
      cases hstep
      exact .none
    | some next =>
      obtain ⟨record, objects'⟩ := next
      cases hstep with
      | some hR' =>
        have hrest := ih hR'
        simp only [Option.bind_eq_bind, Option.bind_some]
        generalize Session.play k false objects' rest = p at hrest ⊢
        cases p <;> exact hrest

/-! ## Sessions with a log -/

/-- The steps that had a reply. -/
def replied (steps : List (Nat × Command γ)) (records : List (Record σ ρ)) :
    List (Nat × Command γ) :=
  ((steps.zip records).filter fun p => p.2.reply.isOk).map Prod.fst

theorem mem_of_mem_replied {steps : List (Nat × Command γ)} {records : List (Record σ ρ)}
    {s : Nat × Command γ} (h : s ∈ replied steps records) : s ∈ steps := by
  obtain ⟨p, hp, rfl⟩ := List.mem_map.1 h
  exact (List.of_mem_zip (List.mem_filter.1 hp).1).1

/-- A log gets a line for every event, if the sizes that the events speak of fit. -/
theorem exists_record {events : List Event} (logged : Bool) (h : ∀ e ∈ events, e.Fits) :
    ∃ lines, record logged events = .ok lines := by
  cases logged with
  | false => exact ⟨[], rfl⟩
  | true =>
    induction events with
    | nil => exact ⟨[], rfl⟩
    | cons e rest ih =>
      obtain ⟨line, hline⟩ := e.record_isOk_iff.2 (h e (List.mem_cons_self ..))
      obtain ⟨lines, hlines⟩ := ih fun e' he' => h e' (List.mem_cons_of_mem _ he')
      refine ⟨line :: lines, ?_⟩
      have hrest : rest.mapM Event.record = .ok lines := hlines
      simp only [record, if_true, List.mapM_cons, hline, hrest]
      rfl

/-- What one step does: nothing where its events cannot be recorded, and otherwise what its
command does. -/
theorem step_eq_some {logged : Bool} {number : Nat} {command : Command γ}
    {objects objects' : List σ} {record : Record σ ρ}
    (h : step k logged number command objects = some (record, objects')) :
    ∃ object, objects[number]? = some object ∧
      ((record.reply.isOk = false ∧ objects' = objects) ∨
        (record.reply = (perform k objects.length object command).1.reply ∧
          objects' = objects.set number (perform k objects.length object command).1.state ++
            (perform k objects.length object command).2.toList)) := by
  obtain ⟨object, hobject, h⟩ := Option.map_eq_some_iff.1 h
  refine ⟨object, hobject, ?_⟩
  simp only at h
  split at h
  · obtain ⟨rfl, rfl⟩ := Prod.mk.inj h
    exact Or.inl ⟨rfl, rfl⟩
  · obtain ⟨rfl, rfl⟩ := Prod.mk.inj h
    exact Or.inr ⟨rfl, rfl⟩

theorem step_of_recorded {logged : Bool} {number : Nat} (command : Command γ) {objects : List σ}
    {object : σ} {lines : List Text} (hobject : objects[number]? = some object)
    (hlines : record logged (perform k objects.length object command).1.events = .ok lines) :
    step k logged number command objects =
      some (⟨(perform k objects.length object command).1.reply,
          (perform k objects.length object command).1.state, lines⟩,
        objects.set number (perform k objects.length object command).1.state ++
          (perform k objects.length object command).2.toList) := by
  simp only [step, hobject, Option.map_some, hlines]

/-- A step whose command is known to have some outcome, and to make a copy or none. -/
theorem step_of_perform {logged : Bool} {number : Nat} {command : Command γ} {objects : List σ}
    {object : σ} {outcome : Outcome Overflow σ (Reply ρ)} {copy : Option σ} {lines : List Text}
    (hobject : objects[number]? = some object)
    (hperform : perform k objects.length object command = (outcome, copy))
    (hlines : record logged outcome.events = .ok lines) :
    step k logged number command objects =
      some (⟨outcome.reply, outcome.state, lines⟩,
        objects.set number outcome.state ++ copy.toList) := by
  have hrecorded : record logged (perform k objects.length object command).1.events = .ok lines :=
    by rwa [hperform]
  have hstep := step_of_recorded command hobject hrecorded
  rwa [hperform] at hstep

/-- A log leads to no objects that are not met without one: a step whose events cannot be recorded
might have been left out. -/
theorem exists_play_without_log {logged : Bool} {objects objects' : List σ}
    {steps : List (Nat × Command γ)} {records : List (Record σ ρ)}
    (h : play k logged objects steps = some (records, objects')) :
    ∃ steps' records', play k false objects steps' = some (records', objects') := by
  induction steps generalizing objects records with
  | nil =>
    cases h
    exact ⟨[], [], rfl⟩
  | cons s rest ih =>
    obtain ⟨number, command⟩ := s
    cases hs : step k logged number command objects with
    | none => simp [play, hs] at h
    | some next =>
      obtain ⟨done, between⟩ := next
      rw [play_cons hs, Option.map_eq_some_iff] at h
      obtain ⟨⟨records₁, objects₁⟩, hrest, hp⟩ := h
      cases hp
      obtain ⟨steps', records', hplay⟩ := ih hrest
      obtain ⟨object, hobject, hdone⟩ := step_eq_some hs
      rcases hdone with ⟨-, rfl⟩ | ⟨-, rfl⟩
      · exact ⟨steps', records', hplay⟩
      · have hsilent : record false (perform k objects.length object command).1.events = .ok [] :=
          rfl
        refine ⟨(number, command) :: steps', ?_⟩
        rw [play_cons (step_of_recorded command hobject hsilent), hplay]
        exact ⟨_, rfl⟩

/-- A command without a reply has no part in the account of its object. -/
def Silent (k : Kind σ γ ρ) (m : Rule γ τ) (R : σ → τ → Prop) : Prop :=
  ∀ command object account, R object account → (k.act command object).reply.isOk = false →
    m.act command account = account

theorem Silent.perform (h : Silent k m R) {object : σ} {account : τ} (hR : R object account)
    {others : Nat} {command : Command γ}
    (hreply : (Session.perform k others object command).1.reply.isOk = false) :
    m.perform account command = (account, none) := by
  cases command with
  | own command =>
    have hact : (k.act command object).reply.isOk = false :=
      (Outcome.isOk_reply_map ..).symm.trans hreply
    rw [Rule.perform, h command object account hR hact]
  | free => cases hreply
  | clone => cases hreply
  | describe spread => rfl

theorem Refines.step_replied (h : Refines k m R) (hsilent : Silent k m R) {logged : Bool}
    {objects objects' : List σ} {accounts : List τ} (hR : List.Forall₂ R objects accounts)
    {number : Nat} {command : Command γ} {record : Record σ ρ}
    (hs : Session.step k logged number command objects = some (record, objects')) :
    (record.reply.isOk = true → ∃ accounts', m.step number command accounts = some accounts' ∧
      List.Forall₂ R objects' accounts') ∧
    (record.reply.isOk = false → List.Forall₂ R objects' accounts) := by
  obtain ⟨object, hobject, hdone⟩ := step_eq_some hs
  obtain ⟨account, haccount, hab⟩ := exists_getElem?_eq hR hobject
  rcases hdone with ⟨hreply, rfl⟩ | ⟨hreply, rfl⟩
  · exact ⟨fun hok => absurd hok (by rw [hreply]; decide), fun _ => hR⟩
  · obtain ⟨hstate, hcopy⟩ := h.perform hab objects.length command
    have hnext : List.Forall₂ R (_ ++ _) (_ ++ _) :=
      List.rel_append (forall₂_set hR number hstate) (forall₂_toList hcopy)
    constructor
    · intro _
      exact ⟨_, by rw [Rule.step, haccount]; rfl, hnext⟩
    · -- without a reply the account is what it was
      intro hfail
      rw [hreply] at hfail
      rw [hsilent.perform hab hfail] at hnext
      obtain ⟨hlt, rfl⟩ := List.getElem?_eq_some_iff.1 haccount
      rwa [List.set_getElem_self, Option.toList_none, List.append_nil] at hnext

/-- **Objects follow the accounts of the steps that had a reply**, with a log and without one. -/
theorem Refines.play_replied (h : Refines k m R) (hsilent : Silent k m R) {logged : Bool}
    {objects objects' : List σ} {accounts : List τ} (hR : List.Forall₂ R objects accounts)
    {steps : List (Nat × Command γ)} {records : List (Record σ ρ)}
    (hp : Session.play k logged objects steps = some (records, objects')) :
    ∃ accounts', m.run accounts (replied steps records) = some accounts' ∧
      List.Forall₂ R objects' accounts' := by
  induction steps generalizing objects accounts records with
  | nil =>
    cases hp
    exact ⟨accounts, rfl, hR⟩
  | cons s rest ih =>
    obtain ⟨number, command⟩ := s
    simp only [Session.play, Option.bind_eq_bind, Option.bind_eq_some_iff] at hp
    obtain ⟨⟨record, between⟩, hs, ⟨records', objects''⟩, hrest, hp⟩ := hp
    cases hp
    obtain ⟨hok, hfail⟩ := h.step_replied hsilent hR hs
    cases hreply : record.reply.isOk with
    | true =>
      obtain ⟨accounts', hstep, hR'⟩ := hok hreply
      obtain ⟨accounts'', hrun, hR''⟩ := ih hR' hrest
      refine ⟨accounts'', ?_, hR''⟩
      have hreplied : replied ((number, command) :: rest) (record :: records') =
          (number, command) :: replied rest records' := by
        simp [replied, hreply]
      rw [hreplied, Rule.run, hstep]
      exact hrun
    | false =>
      obtain ⟨accounts'', hrun, hR''⟩ := ih (hfail hreply) hrest
      refine ⟨accounts'', ?_, hR''⟩
      simpa [replied, hreply] using hrun

/-! ## Every object has an account -/

theorem Refines.forall_step (h : Refines k m R) {logged : Bool} {objects objects' : List σ}
    (hobjects : ∀ s ∈ objects, ∃ a, R s a) {number : Nat} {command : Command γ}
    {record : Record σ ρ}
    (hs : Session.step k logged number command objects = some (record, objects')) :
    ∀ s ∈ objects', ∃ a, R s a := by
  obtain ⟨object, hobject, hdone⟩ := step_eq_some hs
  rcases hdone with ⟨-, rfl⟩ | ⟨-, rfl⟩
  · exact hobjects
  · obtain ⟨account, hab⟩ := hobjects object (List.mem_of_getElem? hobject)
    obtain ⟨hstate, hcopy⟩ := h.perform hab objects.length command
    intro s hs
    rcases List.mem_append.1 hs with hs | hs
    · rcases List.mem_or_eq_of_mem_set hs with hs | rfl
      · exact hobjects s hs
      · exact ⟨_, hstate⟩
    · generalize (Session.perform k objects.length object command).2 = copy at hs hcopy
      generalize (m.perform account command).2 = copied at hcopy
      cases hcopy with
      | none => cases hs
      | some hab' => exact ⟨_, List.mem_singleton.1 hs ▸ hab'⟩

/-- **Every object of a session has an account that it is related to**, whatever replies there were
and whether a log is kept or not. -/
theorem Refines.forall_play (h : Refines k m R) {logged : Bool} {objects objects' : List σ}
    (hobjects : ∀ s ∈ objects, ∃ a, R s a) {steps : List (Nat × Command γ)}
    {records : List (Record σ ρ)}
    (hp : Session.play k logged objects steps = some (records, objects')) :
    ∀ s ∈ objects', ∃ a, R s a := by
  induction steps generalizing objects records with
  | nil =>
    cases hp
    exact hobjects
  | cons s rest ih =>
    obtain ⟨number, command⟩ := s
    simp only [Session.play, Option.bind_eq_bind, Option.bind_eq_some_iff] at hp
    obtain ⟨⟨record, between⟩, hs, ⟨records', objects''⟩, hrest, hp⟩ := hp
    cases hp
    exact ih (h.forall_step hobjects hs) hrest

/-! ## What a rule keeps -/

/-- What every command keeps of an account is kept until the object is freed, whatever happens to
the other objects. -/
theorem Rule.run_keeps {P : τ → Prop}
    (hact : ∀ command account, P account → P (m.act command account))
    {steps : List (Nat × Command γ)} {number : Nat} (hfree : (number, .free) ∉ steps)
    {accounts accounts' : List τ} (hrun : m.run accounts steps = some accounts') {account : τ}
    (haccount : accounts[number]? = some account) (hP : P account) :
    ∃ account', accounts'[number]? = some account' ∧ P account' := by
  induction steps generalizing accounts account with
  | nil =>
    cases hrun
    exact ⟨account, haccount, hP⟩
  | cons s rest ih =>
    obtain ⟨other, command⟩ := s
    simp only [Rule.run, Option.bind_eq_bind, Option.bind_eq_some_iff] at hrun
    obtain ⟨between, hstep, hrun⟩ := hrun
    rw [List.mem_cons, not_or] at hfree
    obtain ⟨source, hsource, rfl⟩ := Option.map_eq_some_iff.1 hstep
    have hlt : number < accounts.length := (List.getElem?_eq_some_iff.1 haccount).1
    have hset : number < (accounts.set other (m.perform source command).1).length := by
      rwa [List.length_set]
    by_cases hother : other = number
    · -- the step works on the object itself
      subst hother
      rw [haccount] at hsource
      cases hsource
      have hnext : (accounts.set other (m.perform account command).1 ++
          (m.perform account command).2.toList)[other]? = some (m.perform account command).1 := by
        rw [List.getElem?_append_left hset, List.getElem?_set_self hlt]
      refine ih hfree.2 hrun hnext ?_
      cases command with
      | own command => exact hact command account hP
      | free => exact absurd rfl hfree.1
      | clone => exact hP
      | describe spread => exact hP
    · -- another object changes, or a copy of it comes last
      refine ih hfree.2 hrun ?_ hP
      rw [List.getElem?_append_left hset, List.getElem?_set_ne hother, haccount]

end Session

end Bytecode
