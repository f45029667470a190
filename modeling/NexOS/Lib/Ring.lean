import Mathlib

/-! # Rings

A row of slots that is used in a circle. What a ring holds is read from its head on.
-/

namespace NexOS.Ring

open Function List

variable {α : Type*} {slots : Nat → α} {size head count : Nat}

/-- The values of a ring from its head on. -/
def contents (slots : Nat → α) (size head count : Nat) : List α :=
  (List.range count).map fun i => slots ((head + i) % size)

lemma contents_pop (hhead : head < size) : contents slots size head (count + 1) =
      slots head :: contents slots size ((head + 1) % size) count := by
  simp [contents, range_succ_eq_map, Nat.mod_eq_of_lt hhead, Nat.add_assoc, Nat.add_comm 1]

/-- A value that is put behind the others is less than one round away from them. -/
lemma contents_push (hroom : count < size) (value : α) :
    contents (update slots ((head + count) % size) value) size head (count + 1) =
      contents slots size head count ++ [value] := by
  simp only [contents, range_succ, map_append, map_cons, map_nil, update_self]
  congr 1
  refine map_congr_left fun i hi => update_of_ne ?_ _ _
  intro hmod
  have hle : i ≤ count := (mem_range.mp hi).le
  have hzero : (count - i) % size = 0 := by
    rw [← Nat.add_sub_add_left head count i]
    exact Nat.sub_mod_eq_zero_of_mod_eq hmod.symm
  rw [Nat.mod_eq_of_lt (by omega)] at hzero
  have := mem_range.mp hi
  omega

end NexOS.Ring
