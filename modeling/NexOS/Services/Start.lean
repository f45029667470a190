import Mathlib

/-! # Starting services

A service is started after those that it requires and those that it is to come after. Whether it
runs already is looked up before these are started, so the order holds if none of them starts
it again. The services on the second list are only started if those on the first one run.
-/

namespace NexOS.Services

open List Function Relation

/-- The name of a service. -/
abbrev Name := List Char

/-- The lists of a definition, as they are written. -/
structure Definition where
  requires : List Char
  after : List Char

/-- A service runs if its record names a process that has not exited. The services that were
spawned are kept last one first. -/
structure State where
  running : Name → Bool
  spawned : List Name
  attempts : ℕ

/-- The items that the loop of `start_list` collects. Names end at 24 characters. -/
def items : List Char → Name → List Name
  | [], item => [item].filter (· ≠ [])
  | ch :: rest, item =>
    if ch = ',' then [item].filter (· ≠ []) ++ items rest []
    else if ch ≠ ' ' ∧ item.length < 24 then items rest (item ++ [ch])
    else items rest item

/-- The redirections and the spawn succeed if there is an answer, which says whether the record
of the new process was saved. -/
def spawn (answers : ℕ → Option Bool) (name : Name) (s : State) : Bool × State :=
  match answers s.attempts with
  | none => (false, { s with attempts := s.attempts + 1 })
  | some saved =>
    (true, ⟨if saved then update s.running name true else s.running, name :: s.spawned,
      s.attempts + 1⟩)

section

variable (defs : Name → Option Definition) (ran : Name → Bool)

/-- Each service did not run when it was spawned, and those that it requires did. -/
def StartOrder : List Name → Prop
  | [] => True
  | name :: before =>
    StartOrder before ∧ name ∉ before ∧ ran name = false ∧
      ∀ d ∈ defs name, ∀ r ∈ items d.requires [], r ∈ before ∨ ran r = true

/-- A service can come to run if those that it requires can. -/
inductive CanRun : Name → Prop
  | ran {name : Name} (hran : ran name = true) : CanRun name
  | start {name : Name} {d : Definition} (hd : d ∈ defs name)
      (hall : ∀ r ∈ items d.requires [], CanRun r) : CanRun name

/-- The record was saved after each spawn that was made. -/
def Saved (answers : ℕ → Option Bool) (s : State) : Prop :=
  ∀ n < s.attempts, answers n ≠ some false

/-- The services that run are those that ran before and those that were spawned. -/
structure Ordered (s : State) : Prop where
  order : StartOrder defs ran s.spawned
  running_iff (name : Name) : s.running name = true ↔ ran name = true ∨ name ∈ s.spawned
  canRun (name : Name) : s.running name = true → CanRun defs ran name

/-- A part of the start spawns some of the given services. -/
structure Spawns (those : Name → Prop) (s s' : State) : Prop extends Ordered defs ran s' where
  kept : ∀ name ∈ s.spawned, name ∈ s'.spawned
  new : ∀ name ∈ s'.spawned, name ∈ s.spawned ∨ those name

end

variable {defs : Name → Option Definition} {ran : Name → Bool} {answers : ℕ → Option Bool}
  {those : Name → Prop} {s s' : State} {name : Name}

lemma Spawns.running (h : Spawns defs ran those s s') (hs : Ordered defs ran s)
    (hname : s.running name = true) : s'.running name = true :=
  (h.running_iff name).mpr (((hs.running_iff name).mp hname).imp_right (h.kept name))

lemma Spawns.trans {s'' : State} (h : Spawns defs ran those s s')
    (h' : Spawns defs ran those s' s'') : Spawns defs ran those s s'' :=
  ⟨h'.toOrdered, fun x hx => h'.kept x (h.kept x hx), fun x hx => (h'.new x hx).elim (h.new x) .inr⟩

lemma Spawns.mono {others : Name → Prop} (h : Spawns defs ran those s s')
    (hsub : ∀ x, those x → others x) : Spawns defs ran others s s' :=
  ⟨h.toOrdered, h.kept, fun x hx => (h.new x hx).imp_right (hsub x)⟩

lemma Saved.mono (h : Saved answers s') (hle : s.attempts ≤ s'.attempts) : Saved answers s :=
  fun n hn => h n (hn.trans_le hle)

end NexOS.Services
