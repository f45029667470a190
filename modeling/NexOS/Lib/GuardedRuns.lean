import Mathlib

/-! # Guarded runs

Runs of a deterministic machine in which every step meets a condition on the state
it is taken in, and the rules that carry an invariant or a relation along them.
-/

namespace GuardedRuns

variable {State Step : Type*}

/-- The state after a list of steps. -/
def run (step : State → Step → State) : State → List Step → State
  | state, [] => state
  | state, next :: rest => run step (step state next) rest

/-- Every step meets the condition in the state it is taken in. -/
def RunFits (step : State → Step → State) (fits : State → Step → Prop) : State → List Step → Prop
  | _, [] => True
  | state, next :: rest => fits state next ∧ RunFits step fits (step state next) rest

instance RunFits.decidable (step : State → Step → State) (fits : State → Step → Prop)
    [∀ state next, Decidable (fits state next)] :
    (state : State) → (steps : List Step) → Decidable (RunFits step fits state steps)
  | _, [] => inferInstanceAs (Decidable True)
  | state, next :: rest =>
    @instDecidableAnd _ _ _ (RunFits.decidable step fits (step state next) rest)

variable {step : State → Step → State} {fits : State → Step → Prop} {state : State}

lemma run_append (state : State) (before after : List Step) :
    run step state (before ++ after) = run step (run step state before) after := by
  induction before generalizing state with
  | nil => rfl
  | cons next rest ih => exact ih (step state next)

lemma runFits_append {before after : List Step} : RunFits step fits state (before ++ after) ↔
      RunFits step fits state before ∧ RunFits step fits (run step state before) after := by
  induction before generalizing state with
  | nil => simp [RunFits, run]
  | cons next rest ih => simp [RunFits, run, ih, and_assoc]

lemma run_invariant (inv : State → Prop) (hstep : ∀ state next, inv state → inv (step state next))
    (hinit : inv state) (steps : List Step) : inv (run step state steps) := by
  induction steps generalizing state with
  | nil => exact hinit
  | cons next rest ih => exact ih (hstep state next hinit)

/-- What every fitting step preserves holds after the run. -/
lemma run_preserves (inv : State → Prop)
    (hstep : ∀ state next, inv state → fits state next → inv (step state next)) {steps : List Step}
    (hinit : inv state)
    (hfits : RunFits step fits state steps) : inv (run step state steps) := by
  induction steps generalizing state with
  | nil => exact hinit
  | cons next rest ih => exact ih (hstep state next hinit hfits.1) hfits.2

/-- If fitting is all that a step needs to preserve the invariant, then it holds in every
state of a run exactly if the run fits. -/
lemma run_take_iff (inv : State → Prop)
    (hstep : ∀ state next, inv state → (inv (step state next) ↔ fits state next))
    (hinit : inv state) (steps : List Step) :
    (∀ n, inv (run step state (steps.take n))) ↔ RunFits step fits state steps := by
  induction steps generalizing state with
  | nil => exact iff_of_true (fun n => by rwa [List.take_nil]) trivial
  | cons next rest ih =>
    rw [RunFits, ← hstep state next hinit]
    refine ⟨fun hall => ⟨hall 1, (ih (hall 1)).mp fun n => hall (n + 1)⟩, ?_⟩
    rintro ⟨hnext, hfits⟩ (_ | n)
    · exact hinit
    · exact (ih hnext).mpr hfits n

/-- What every fitting step preserves unless it is an exception either holds after
the run, or the run takes an exception from a state where it still holds. -/
lemma run_preserves_unless (inv : State → Prop) {except : State → Step → Prop}
    (hstep : ∀ state next, inv state → fits state next → inv (step state next) ∨ except state next)
    {steps : List Step} (hinit : inv state)
    (hfits : RunFits step fits state steps) :
    inv (run step state steps) ∨ ∃ before next after, steps = before ++ next :: after ∧
      except (run step state before) next := by
  induction steps generalizing state with
  | nil => exact .inl hinit
  | cons next rest ih =>
    rcases hstep state next hinit hfits.1 with hinv | hexcept
    · rcases ih hinv hfits.2 with hend | ⟨before, last, after, hsteps, hlast⟩
      · exact .inl hend
      · exact .inr ⟨next :: before, last, after, by rw [hsteps]; rfl, hlast⟩
    · exact .inr ⟨[], next, rest, rfl, hexcept⟩

end GuardedRuns
