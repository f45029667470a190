import Mathlib

/-! # Linear probing

A table of keys, one of which marks an empty slot, is searched from a starting
slot onward and cyclically until the key or an empty slot is met. Keys are only
ever added, in the slot where the search for them ended; the search for a key
that is present is not disturbed by that.
-/

namespace Probing

open Function

variable {Key : Type*} [DecidableEq Key]

/-- Search at most `fuel` slots. The table's size stands for "not found". -/
def search (size : Nat) (blank : Key) (keys : Nat → Key) (key : Key) : Nat → Nat → Nat
  | 0, _ => size
  | fuel + 1, index =>
    if keys index = blank ∨ keys index = key then index
    else search size blank keys key fuel ((index + 1) % size)

variable {size : Nat} {blank : Key} {keys : Nat → Key} {key : Key}

/-- Filling an empty slot does not move a key that the search already finds. -/
lemma search_update_of_found (hkey : key ≠ blank) (slot : Nat) (hslot : keys slot = blank)
    (added : Key) (fuel index : Nat)
    (hfound : keys (search size blank keys key fuel index) = key)
    (hsize : search size blank keys key fuel index ≠ size) :
    search size blank (update keys slot added) key fuel index =
      search size blank keys key fuel index := by
  induction fuel generalizing index with
  | zero => exact absurd rfl hsize
  | succ fuel ih =>
    unfold search at hfound hsize ⊢
    by_cases hstop : keys index = blank ∨ keys index = key
    · rw [if_pos hstop] at hfound
      have hne : index ≠ slot := fun heq => hkey (by rw [← hfound, heq, hslot])
      rw [if_pos hstop, update_of_ne hne, if_pos hstop]
    · rw [if_neg hstop] at hfound hsize ⊢
      have hne : index ≠ slot := fun heq => hstop (Or.inl (heq ▸ hslot))
      rw [update_of_ne hne, if_neg hstop]
      exact ih _ hfound hsize

/-- A key added where its search ended at an empty slot is found there. -/
lemma search_update_self (fuel index : Nat)
    (hblank : keys (search size blank keys key fuel index) = blank)
    (hsize : search size blank keys key fuel index ≠ size) :
    search size blank
        (update keys (search size blank keys key fuel index) key) key fuel index =
      search size blank keys key fuel index := by
  generalize hslot : search size blank keys key fuel index = slot at hblank hsize ⊢
  induction fuel generalizing index with
  | zero => exact absurd hslot.symm hsize
  | succ fuel ih =>
    unfold search at hslot ⊢
    by_cases hstop : keys index = blank ∨ keys index = key
    · rw [if_pos hstop] at hslot
      subst hslot
      rw [update_self, if_pos (Or.inr rfl)]
    · rw [if_neg hstop] at hslot
      have hne : index ≠ slot := fun heq => hstop (Or.inl (heq ▸ hblank))
      rw [update_of_ne hne, if_neg hstop]
      exact ih _ hslot

/-- A search from the first slot on meets an empty slot if there is one. -/
lemma search_lt {slot fuel index : Nat} (hslot : keys slot = blank) (hle : index ≤ slot)
    (hlt : slot < size) (hfuel : index + fuel = size) :
    search size blank keys key fuel index < size ∧
      (keys (search size blank keys key fuel index) = blank ∨
        keys (search size blank keys key fuel index) = key) := by
  induction fuel generalizing index with
  | zero => omega
  | succ fuel ih =>
    rw [search]
    split
    next hstop => exact ⟨by omega, hstop⟩
    next hstop =>
      have hne : index ≠ slot := fun heq => hstop (.inl (heq ▸ hslot))
      rw [Nat.mod_eq_of_lt (by omega)]
      exact ih (by omega) (by omega)

end Probing
