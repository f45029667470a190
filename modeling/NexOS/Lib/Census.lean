import Mathlib

/-! # Census of a table

How many cells of a finite table hold a given value, and how that number moves
when one cell is overwritten.
-/

namespace Census

open Function

variable {ι α : Type*} [Fintype ι] [DecidableEq ι] [DecidableEq α]

/-- The number of cells that hold `a`. -/
def census (f : ι → α) (a : α) : Nat := (Finset.univ.filter fun i => f i = a).card

variable {f : ι → α} {a b : α} {i : ι}

omit [DecidableEq ι] in
lemma census_eq_zero_iff : census f a = 0 ↔ ∀ i, f i ≠ a := by
  simp [census]

omit [DecidableEq ι] in
lemma census_pos (hcell : f i = a) : 0 < census f a := by
  rw [Nat.pos_iff_ne_zero, ne_eq, census_eq_zero_iff]
  exact fun hnone => hnone i hcell

/-- The cells that hold `a` after an update, up to the updated one. -/
lemma filter_update_erase (f : ι → α) (i : ι) (b a : α) :
    (Finset.univ.filter fun j => update f i b j = a).erase i =
      (Finset.univ.filter fun j => f j = a).erase i := by
  ext j
  by_cases hji : j = i
  · simp [hji]
  · simp [hji]

/-- Overwriting a cell moves one count from the old value to the new one. -/
lemma census_update (f : ι → α) (i : ι) (b a : α) :
    census (update f i b) a + (if f i = a then 1 else 0) =
      census f a + (if b = a then 1 else 0) := by
  have hcount : ∀ g : ι → α, census g a =
      ((Finset.univ.filter fun j => g j = a).erase i).card + if g i = a then 1 else 0 := by
    intro g
    rw [census]
    split
    next hcell => rw [Finset.card_erase_add_one (by simpa using hcell)]
    next hcell => rw [Finset.erase_eq_of_notMem (by simpa using hcell), Nat.add_zero]
  rw [hcount (update f i b), hcount f, filter_update_erase, update_self]
  omega

lemma census_update_of_ne (hold : f i ≠ a) (hnew : b ≠ a) :
    census (update f i b) a = census f a := by
  have hmove := census_update f i b a
  simpa [hold, hnew] using hmove

lemma census_update_gain (hold : f i ≠ a) : census (update f i a) a = census f a + 1 := by
  have hmove := census_update f i a a
  simpa [hold] using hmove

lemma census_update_loss (hold : f i = a) (hnew : b ≠ a) :
    census (update f i b) a = census f a - 1 := by
  have hmove := census_update f i b a
  rw [if_pos hold, if_neg hnew] at hmove
  omega

end Census
