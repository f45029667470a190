import Mathlib

/-! # Fixed-width bit masks as sets

A machine word used as a set of flags is ordered by inclusion of its bits. The
test `a & ~b == 0`, by which C code decides inclusion, is the definition here;
the pointwise reading is the working form of every proof.
-/

namespace Mask

variable {w : Nat} {a b : BitVec w}

/-- Every flag of `a` is a flag of `b`, as the machine tests it. -/
def Within (a b : BitVec w) : Prop := a &&& ~~~b = 0#w

instance (a b : BitVec w) : Decidable (Within a b) := inferInstanceAs (Decidable (_ = _))

lemma within_iff : Within a b ↔ ∀ i : Nat, a.getLsbD i = true → b.getLsbD i = true := by
  constructor
  · intro hwithin i hbit
    have hlt : i < w := BitVec.lt_of_getLsbD hbit
    have hzero : (a &&& ~~~b).getLsbD i = (0#w).getLsbD i := by rw [hwithin]
    simpa [hbit, hlt] using hzero
  · intro hbits
    apply BitVec.eq_of_getLsbD_eq
    intro i hlt
    cases hbit : a.getLsbD i with
    | false => simp [hbit]
    | true => simp [hbits i hbit]

lemma within_refl (a : BitVec w) : Within a a :=
  within_iff.mpr fun _ hbit => hbit

lemma Within.trans {c : BitVec w} (hab : Within a b) (hbc : Within b c) : Within a c :=
  within_iff.mpr fun i hbit => within_iff.mp hbc i (within_iff.mp hab i hbit)

lemma and_within_left (a b : BitVec w) : Within (a &&& b) a := by
  refine within_iff.mpr fun i hbit => ?_
  rw [BitVec.getLsbD_and, Bool.and_eq_true] at hbit
  exact hbit.1

lemma and_within_right (a b : BitVec w) : Within (a &&& b) b := by
  refine within_iff.mpr fun i hbit => ?_
  rw [BitVec.getLsbD_and, Bool.and_eq_true] at hbit
  exact hbit.2

/-- A set inside a mask is not changed by cutting it to that mask. -/
lemma Within.and_eq (hwithin : Within a b) : a &&& b = a := by
  apply BitVec.eq_of_getLsbD_eq
  intro i _
  cases hbit : a.getLsbD i with
  | false => simp [hbit]
  | true => simp [hbit, within_iff.mp hwithin i hbit]

end Mask
