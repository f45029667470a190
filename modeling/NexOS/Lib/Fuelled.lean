import Mathlib

/-! # Computations that may not end

A computation is run with a bound on the rounds of its loops. If it has a result under
some bound, it has the same result under every larger one. A loop goes from state to
state until a step gives a result.
-/

universe u v

/-- A computation with a bound on its steps; a larger bound changes no result. -/
structure Fuelled (α : Type u) where
  run : Nat → Option α
  mono : ∀ {n m a}, n ≤ m → run n = some a → run m = some a

namespace Fuelled

open Option

variable {α β ρ σ : Type u} {x : Fuelled α} {f : α → Fuelled β}

protected def pure (a : α) : Fuelled α := ⟨fun _ => some a, fun _ h => h⟩

protected def bind (x : Fuelled α) (f : α → Fuelled β) : Fuelled β where
  run n := (x.run n).bind fun a => (f a).run n
  mono hle hrun := by
    obtain ⟨a, hx, hf⟩ := bind_eq_some_iff.mp hrun
    exact bind_eq_some_iff.mpr ⟨a, x.mono hle hx, (f a).mono hle hf⟩

instance : Monad Fuelled where
  pure := Fuelled.pure
  bind := Fuelled.bind

/-! ## Results -/

/-- With enough fuel, this is the result. -/
def Returns (x : Fuelled α) (a : α) : Prop := ∃ n, x.run n = some a

lemma returns_pure (a : α) : (pure a : Fuelled α).Returns a := ⟨0, rfl⟩

/-! ## Loops -/

/-- At most so many steps of a loop. -/
def loopFor (step : σ → ρ ⊕ σ) : Nat → σ → Option ρ
  | 0, _ => none
  | n + 1, s =>
    match step s with
    | .inl r => some r
    | .inr s' => loopFor step n s'

lemma loopFor_mono {step : σ → ρ ⊕ σ} {n m : Nat} {s : σ} {r : ρ} (hle : n ≤ m)
    (hrun : loopFor step n s = some r) : loopFor step m s = some r := by
  induction n generalizing m s with
  | zero => cases hrun
  | succ n ih =>
    obtain ⟨m, rfl⟩ := Nat.exists_eq_add_of_lt hle
    unfold loopFor at hrun ⊢
    cases hstep : step s with
    | inl found =>
      rw [hstep] at hrun
      exact hrun
    | inr s' =>
      rw [hstep] at hrun
      exact ih (Nat.le_add_right n m) hrun

/-- A loop until a step ends it. -/
def loop (step : σ → ρ ⊕ σ) (s : σ) : Fuelled ρ := ⟨fun n => loopFor step n s, loopFor_mono⟩

variable {step : σ → ρ ⊕ σ} {s s' : σ} {r : ρ}

lemma returns_loop_of_done (hstep : step s = .inl r) : (loop step s).Returns r := by
  refine ⟨1, ?_⟩
  change loopFor step 1 s = some r
  rw [loopFor, hstep]

lemma returns_loop_of_step (hstep : step s = .inr s') :
    (loop step s).Returns r ↔ (loop step s').Returns r := by
  constructor
  · rintro ⟨n, hn⟩
    change loopFor step n s = some r at hn
    cases n with
    | zero => cases hn
    | succ n =>
      rw [loopFor, hstep] at hn
      exact ⟨n, hn⟩
  · rintro ⟨n, hn⟩
    refine ⟨n + 1, ?_⟩
    change loopFor step (n + 1) s = some r
    rw [loopFor, hstep]
    exact hn

end Fuelled
