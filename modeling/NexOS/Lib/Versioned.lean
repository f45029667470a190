import Mathlib

/-! # Registers with a history

A register together with all values it ever held, so that one can say how old a
copy of it is. Versions are numbered from the value it started with.
-/

/-- The present value of a register and its earlier ones, oldest first. -/
structure Versioned (α : Type*) where
  past : List α
  now : α

namespace Versioned

variable {α : Type*} {register : Versioned α} {value other : α} {floor : Nat}

/-- All values, oldest first. -/
def versions (register : Versioned α) : List α := register.past ++ [register.now]

/-- The number of the present version. -/
def latest (register : Versioned α) : Nat := register.past.length

/-- A new version. -/
def write (register : Versioned α) (value : α) : Versioned α := ⟨register.versions, value⟩

/-- The value was held in version `floor` or in a later one. -/
def Since (register : Versioned α) (floor : Nat) (value : α) : Prop :=
  ∃ version, floor ≤ version ∧ register.versions[version]? = some value

lemma since_now (hfloor : floor ≤ register.latest) : register.Since floor register.now := by
  refine ⟨register.latest, hfloor, ?_⟩
  simp [versions, latest]

lemma Since.mono {lower : Nat} (hsince : register.Since floor value) (hlower : lower ≤ floor) :
    register.Since lower value := by
  obtain ⟨version, hversion, hvalue⟩ := hsince
  exact ⟨version, Nat.le_trans hlower hversion, hvalue⟩

/-- No later write takes a version away. -/
lemma Since.write (hsince : register.Since floor value) (other : α) :
    (register.write other).Since floor value := by
  obtain ⟨version, hversion, hvalue⟩ := hsince
  refine ⟨version, hversion, ?_⟩
  obtain ⟨hlen, hget⟩ := List.getElem?_eq_some_iff.mp hvalue
  change (register.versions ++ [other])[version]? = some value
  rw [List.getElem?_append_left hlen, hvalue]

/-- `after` holds everything that `before` held, under the same numbers. -/
structure Extends (before after : Versioned α) : Prop where
  latest_le : before.latest ≤ after.latest
  since : ∀ floor value, before.Since floor value → after.Since floor value

lemma extends_refl (register : Versioned α) : register.Extends register :=
  ⟨Nat.le_refl _, fun _ _ hsince => hsince⟩

lemma Extends.trans {first second third : Versioned α} (hfirst : first.Extends second)
    (hsnd : second.Extends third) : first.Extends third where
  latest_le := Nat.le_trans hfirst.latest_le hsnd.latest_le
  since floor value hsince := hsnd.since floor value (hfirst.since floor value hsince)

lemma extends_write (register : Versioned α) (value : α) :
    register.Extends (register.write value) where
  latest_le := by simp [latest, Versioned.write, versions]
  since _ _ hsince := hsince.write value

end Versioned
