import Mathlib

/-! # Programs over a command interface

A program issues commands, continues with the replies, and returns a value or
fails. What it does is left to a handler of the commands on some state. Two
handlers that reply alike in related states make every program behave alike:
this is how a program proved correct over a simple state is carried over to the
state it really runs on. Over one handler, the rules for `Ends` derive what a
program can end in from what its parts can end in.
-/

/-- Programs that issue commands of `Cmd` and return a value of `α` or fail. -/
inductive Program (Cmd : Type) (Reply : Cmd → Type) (α : Type) where
  | done (value : α)
  | fail
  | call (cmd : Cmd) (next : Reply cmd → Program Cmd Reply α)

namespace Program

variable {Cmd : Type} {Reply : Cmd → Type} {α β : Type} {σ τ : Type}
  {p : Program Cmd Reply α} {s s' : σ}

/-- A program after another one. -/
def andThen : Program Cmd Reply α → (α → Program Cmd Reply β) → Program Cmd Reply β
  | done value, next => next value
  | fail, _ => fail
  | call cmd reply, next => call cmd fun r => (reply r).andThen next

instance : Monad (Program Cmd Reply) where
  pure := done
  bind := andThen

/-- A program that never fails and tells whether `p` did. -/
def attempt : Program Cmd Reply α → Program Cmd Reply (Option α)
  | done value => done (some value)
  | fail => done none
  | call cmd reply => call cmd fun r => (reply r).attempt

/-- Failure unless the condition holds. -/
def require (condition : Prop) [Decidable condition] : Program Cmd Reply Unit :=
  if condition then done () else fail

def ofOption : Option α → Program Cmd Reply α
  | some value => done value
  | none => fail

/-- A run with a handler for the calls. -/
def exec (handler : (cmd : Cmd) → σ → Reply cmd × σ) : Program Cmd Reply α → σ → Option α × σ
  | done value, s => (some value, s)
  | fail, s => (none, s)
  | call cmd next, s => (next (handler cmd s).1).exec handler (handler cmd s).2

section Exec

variable (handler : (cmd : Cmd) → σ → Reply cmd × σ)

@[simp] lemma exec_pure (value : α) (s : σ) :
    (pure value : Program Cmd Reply α).exec handler s = (some value, s) := rfl

lemma exec_bind (p : Program Cmd Reply α) (next : α → Program Cmd Reply β) (s : σ) :
    (p >>= next).exec handler s =
      match p.exec handler s with
      | (some value, s) => (next value).exec handler s
      | (none, s) => (none, s) := by
  induction p generalizing s with
  | done value => rfl
  | fail => rfl
  | call cmd reply ih => exact ih _ _

lemma exec_bind_of_some {value : α}
    (hp : p.exec handler s = (some value, s')) (next : α → Program Cmd Reply β) :
    (p >>= next).exec handler s = (next value).exec handler s' := by
  rw [exec_bind, hp]

lemma exec_bind_of_none (hp : p.exec handler s = (none, s')) (next : α → Program Cmd Reply β) :
    (p >>= next).exec handler s = (none, s') := by
  rw [exec_bind, hp]

@[simp] lemma exec_attempt (p : Program Cmd Reply α) (s : σ) :
    p.attempt.exec handler s = (some (p.exec handler s).1, (p.exec handler s).2) := by
  induction p generalizing s with
  | done value => rfl
  | fail => rfl
  | call cmd reply ih => exact ih _ _

lemma exec_require (condition : Prop) [Decidable condition] (s : σ) :
    (require condition : Program Cmd Reply Unit).exec handler s =
      (if condition then some () else none, s) := by
  unfold require
  split
  · rfl
  · rfl

@[simp] lemma exec_ofOption (value : Option α) (s : σ) :
    (ofOption value : Program Cmd Reply α).exec handler s = (value, s) := by
  cases value with
  | none => rfl
  | some value => rfl

end Exec

/-! ## Simulation -/

/-- Every command that a run issues meets a condition on the command and the
state it is issued in. -/
def Meets (handler : (cmd : Cmd) → σ → Reply cmd × σ) (ok : Cmd → σ → Prop) :
    Program Cmd Reply α → σ → Prop
  | done _, _ => True
  | fail, _ => True
  | call cmd next, s =>
    ok cmd s ∧ (next (handler cmd s).1).Meets handler ok (handler cmd s).2

instance decidableMeets {handler : (cmd : Cmd) → σ → Reply cmd × σ} {ok : Cmd → σ → Prop}
    [∀ cmd s, Decidable (ok cmd s)] :
    (p : Program Cmd Reply α) → (s : σ) → Decidable (p.Meets handler ok s)
  | done _, _ => isTrue trivial
  | fail, _ => isTrue trivial
  | call cmd next, s =>
    @instDecidableAnd (ok cmd s) _ inferInstance
      (decidableMeets (next (handler cmd s).1) (handler cmd s).2)

/-- Handlers that reply alike in related states, whenever a command meets the
condition, run a program alike. -/
lemma exec_simulates {handler : (cmd : Cmd) → σ → Reply cmd × σ}
    {handler' : (cmd : Cmd) → τ → Reply cmd × τ} {ok : Cmd → σ → Prop} {related : σ → τ → Prop}
    (hstep : ∀ cmd s t, related s t → ok cmd s →
      (handler cmd s).1 = (handler' cmd t).1 ∧ related (handler cmd s).2 (handler' cmd t).2)
    (p : Program Cmd Reply α) {t : τ} (hrelated : related s t)
    (hmeets : p.Meets handler ok s) :
    (p.exec handler s).1 = (p.exec handler' t).1 ∧
      related (p.exec handler s).2 (p.exec handler' t).2 := by
  induction p generalizing s t with
  | done value => exact ⟨rfl, hrelated⟩
  | fail => exact ⟨rfl, hrelated⟩
  | call cmd next ih =>
    obtain ⟨hok, hnext⟩ := hmeets
    obtain ⟨hreply, hafter⟩ := hstep cmd s t hrelated hok
    simp only [exec]
    rw [← hreply]
    exact ih _ hafter hnext

/-! ## Programs that only look -/

/-- A run leaves the state as it is. -/
def ReadOnly (handler : (cmd : Cmd) → σ → Reply cmd × σ) (p : Program Cmd Reply α) : Prop :=
  ∀ s, (p.exec handler s).2 = s

section ReadOnly

variable {handler : (cmd : Cmd) → σ → Reply cmd × σ}

lemma readOnly_pure (value : α) : ReadOnly handler (pure value : Program Cmd Reply α) :=
  fun _ => rfl

lemma readOnly_fail : ReadOnly handler (fail : Program Cmd Reply α) := fun _ => rfl

lemma readOnly_require (condition : Prop) [Decidable condition] :
    ReadOnly handler (require condition : Program Cmd Reply Unit) := fun s => by
  rw [exec_require]

lemma readOnly_ofOption (value : Option α) :
    ReadOnly handler (ofOption value : Program Cmd Reply α) := fun s => by
  rw [exec_ofOption]

lemma ReadOnly.bind {next : α → Program Cmd Reply β}
    (hp : ReadOnly handler p) (hnext : ∀ value, ReadOnly handler (next value)) :
    ReadOnly handler (p >>= next) := by
  intro s
  rw [exec_bind]
  have hsame := hp s
  rcases hexec : p.exec handler s with ⟨value, s'⟩
  rw [hexec] at hsame
  subst hsame
  cases value with
  | none => rfl
  | some value => exact hnext value s'

lemma ReadOnly.attempt (hp : ReadOnly handler p) : ReadOnly handler p.attempt := fun s => by
  rw [exec_attempt]
  exact hp s

end ReadOnly

/-! ## Postconditions -/

/-- Run from a state, the program ends in an outcome and a state that meet the
postcondition. -/
def Ends (handler : (cmd : Cmd) → σ → Reply cmd × σ) (p : Program Cmd Reply α) (s : σ)
    (post : Option α → σ → Prop) : Prop :=
  post (p.exec handler s).1 (p.exec handler s).2

section Ends

variable {handler : (cmd : Cmd) → σ → Reply cmd × σ} {s : σ} {post : Option α → σ → Prop}
  {next : β → Program Cmd Reply α} {mid : Option β → σ → Prop}

lemma Ends.mono {weaker : Option α → σ → Prop}
    (hp : Ends handler p s post) (himp : ∀ r s', post r s' → weaker r s') :
    Ends handler p s weaker :=
  himp _ _ hp

lemma Ends.and {other : Option α → σ → Prop}
    (hp : Ends handler p s post) (hother : Ends handler p s other) :
    Ends handler p s fun r s' => post r s' ∧ other r s' :=
  ⟨hp, hother⟩

/-- A postcondition that is known under a condition only. -/
lemma Ends.of_imp {condition : Prop} (hp : condition → Ends handler p s post) :
    Ends handler p s fun r s' => condition → post r s' :=
  hp

/-- What a program ends in is what running it gives. -/
lemma ends_exec (p : Program Cmd Reply α) (s : σ) :
    Ends handler p s fun r s' => p.exec handler s = (r, s') := rfl

lemma Ends.of_exec {r : Option α}
    (hp : p.exec handler s = (r, s')) (hpost : post r s') : Ends handler p s post := by
  unfold Ends
  rw [hp]
  exact hpost

lemma Ends.bind {p : Program Cmd Reply β} (hp : Ends handler p s mid)
    (hnone : ∀ s', mid none s' → post none s')
    (hsome : ∀ value s', mid (some value) s' → Ends handler (next value) s' post) :
    Ends handler (p >>= next) s post := by
  unfold Ends at hp ⊢
  rw [exec_bind]
  rcases hexec : p.exec handler s with ⟨r, s'⟩
  rw [hexec] at hp
  cases r with
  | none => exact hnone s' hp
  | some value => exact hsome value s' hp

/-- The rule for a program whose first part is known to succeed. -/
lemma Ends.bind_of_some {p : Program Cmd Reply β}
    {value : β} (hp : p.exec handler s = (some value, s'))
    (hnext : Ends handler (next value) s' post) : Ends handler (p >>= next) s post := by
  unfold Ends
  rw [exec_bind_of_some handler hp]
  exact hnext

lemma Ends.bind_of_none {p : Program Cmd Reply β} (hp : p.exec handler s = (none, s'))
    (hpost : post none s') :
    Ends handler (p >>= next) s post :=
  Ends.of_exec (exec_bind_of_none handler hp next) hpost

lemma ends_pure {value : α} (hpost : post (some value) s) :
    Ends handler (pure value : Program Cmd Reply α) s post := hpost

/-- The rule for a program that goes on whether its first part failed or not. -/
lemma Ends.bind_attempt {p : Program Cmd Reply β} {next : Option β → Program Cmd Reply α}
    (hp : Ends handler p s mid)
    (hnext : ∀ r s', mid r s' → Ends handler (next r) s' post) :
    Ends handler (p.attempt >>= next) s post :=
  Ends.bind_of_some (exec_attempt handler p s) (hnext _ _ hp)

lemma ends_require_bind {condition : Prop} [Decidable condition]
    {next : Unit → Program Cmd Reply α} (hfail : ¬condition → post none s)
    (hnext : condition → Ends handler (next ()) s post) :
    Ends handler (require condition >>= next) s post := by
  by_cases hcond : condition
  · exact Ends.bind_of_some (by rw [exec_require, if_pos hcond]) (hnext hcond)
  · exact Ends.bind_of_none (by rw [exec_require, if_neg hcond]) (hfail hcond)

lemma ends_ofOption_bind {value : Option β} (hfail : value = none → post none s)
    (hnext : ∀ v, value = some v → Ends handler (next v) s post) :
    Ends handler (ofOption value >>= next) s post := by
  cases value with
  | none => exact Ends.bind_of_none (exec_ofOption handler none s) (hfail rfl)
  | some v => exact Ends.bind_of_some (exec_ofOption handler (some v) s) (hnext v rfl)

/-- A program that only looks ends where it started, with what it saw. -/
lemma ReadOnly.ends (hp : ReadOnly handler p) (s : σ) :
    Ends handler p s fun r s' => s' = s ∧ p.exec handler s = (r, s) :=
  ⟨hp s, Prod.ext rfl (hp s)⟩

end Ends

end Program
