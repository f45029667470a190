import Mathlib

/-! # Tables of named slots

Objects live in numbered slots and are found by name while they are linked. An object
gets a serial number when it is created, which no one reads: it says which object a
slot holds. A handle is the number of a slot plus one. What a handle was given out for
is recorded as a grant, and a table denotes its grants if no slot holds an object other
than the one its handle was given out for.
-/

namespace NamedSlots

variable {Body : Type*}

/-- A place for an object, with the name and the serial number of the object. -/
structure Slot (Body : Type*) where
  used : Bool
  linked : Bool
  name : List UInt8
  serial : Nat
  body : Body

/-- The place of the linked object of this name. -/
def byName (slots : List (Slot Body)) (name : List UInt8) : Option Nat :=
  slots.findIdx? fun slot => slot.used && slot.linked && slot.name = name

/-- The first place that is not in use. -/
def firstFree (slots : List (Slot Body)) : Option Nat := slots.findIdx? fun slot => !slot.used

/-- Handles count from 1. -/
def ofHandle (slots : List (Slot Body)) (handle : Nat) : Option Nat :=
  if handle = 0 then none
  else match slots[handle - 1]? with
    | some slot => if slot.used then some (handle - 1) else none
    | none => none

/-- The serial number of the object at a place. -/
def serialAt (slots : List (Slot Body)) (index : Nat) : Option Nat := slots[index]?.map Slot.serial

/-- Every handle that was given out denotes the object it was given out for, or none. -/
def Denotes (slots : List (Slot Body)) (grants : List (Nat × Nat)) : Prop :=
  ∀ grant ∈ grants, ∀ index slot, grant.1 = index + 1 → slots[index]? = some slot →
    slot.used = true → slot.serial = grant.2

/-- The slot holds the object it held before, or none. -/
def Keeps (old new : Slot Body) : Prop :=
  new.used = true → old.used = true ∧ new.serial = old.serial

lemma Keeps.refl (slot : Slot Body) : Keeps slot slot := fun hused => ⟨hused, rfl⟩

lemma Keeps.trans {first second third : Slot Body} (hfirst : Keeps first second)
    (hsnd : Keeps second third) : Keeps first third := by
  intro hused
  obtain ⟨hmid, hser⟩ := hsnd hused
  obtain ⟨hstart, hser'⟩ := hfirst hmid
  exact ⟨hstart, hser.trans hser'⟩

variable {slots : List (Slot Body)} {grants : List (Nat × Nat)} {index handle serial : Nat}
  {slot : Slot Body}

lemma used_of_byName {name : List UInt8} (hfound : byName slots name = some index) :
    ∃ slot, slots[index]? = some slot ∧ slot.used = true := by
  obtain ⟨hindex, hslot, -⟩ := List.findIdx?_eq_some_iff_getElem.mp hfound
  simp only [Bool.and_eq_true] at hslot
  exact ⟨slots[index], List.getElem?_eq_getElem hindex, hslot.1.1⟩

lemma of_ofHandle (hhandle : ofHandle slots handle = some index) :
    handle = index + 1 ∧ ∃ slot, slots[index]? = some slot ∧ slot.used = true := by
  unfold ofHandle at hhandle
  split at hhandle
  · cases hhandle
  next hpos =>
    split at hhandle
    next slot hslot =>
      split at hhandle
      next hused =>
        cases hhandle
        exact ⟨by omega, slot, hslot, hused⟩
      · cases hhandle
    · cases hhandle

/-- What a use through a granted handle acts on is the object of the grant. -/
lemma Denotes.serialAt_of_ofHandle (hslots : Denotes slots grants)
    (hgrant : (handle, serial) ∈ grants) (hhandle : ofHandle slots handle = some index) :
    serialAt slots index = some serial := by
  obtain ⟨hnumber, slot, hslot, hused⟩ := of_ofHandle hhandle
  rw [serialAt, hslot, Option.map_some, hslots _ hgrant index slot hnumber hslot hused]

lemma Denotes.nil : Denotes slots [] := fun _ hgrant => absurd hgrant List.not_mem_nil

variable (hslots : Denotes slots grants) {change : Slot Body → Slot Body}

include hslots

/-- A slot whose handle was never given out may get a new object. -/
lemma Denotes.create (hfresh : ∀ grant ∈ grants, grant.1 ≠ index + 1) (new : Slot Body) :
    Denotes (slots.set index new) ((index + 1, new.serial) :: grants) := by
  intro grant hgrant other slot hother hslot hused
  rw [List.getElem?_set] at hslot
  rcases List.mem_cons.mp hgrant with rfl | hgrant
  · obtain rfl : index = other := by simpa using hother
    rw [if_pos rfl] at hslot
    split at hslot
    · cases hslot
      rfl
    · cases hslot
  · have hne : index ≠ other := by
      rintro rfl
      exact hfresh grant hgrant hother
    rw [if_neg hne] at hslot
    exact hslots grant hgrant other slot hother hslot hused

/-- A handle may be given out for the object that is there. -/
lemma Denotes.grant (hser : serialAt slots index = some serial) :
    Denotes slots ((index + 1, serial) :: grants) := by
  intro grant hgrant other slot hother hslot hused
  rcases List.mem_cons.mp hgrant with rfl | hgrant
  · obtain rfl : index = other := by simpa using hother
    rw [serialAt, hslot] at hser
    exact Option.some.inj hser
  · exact hslots grant hgrant other slot hother hslot hused

/-- Slots that keep their objects or lose them go on denoting the grants. -/
lemma Denotes.of_keeps {after : List (Slot Body)}
    (hkeeps : ∀ (index : Nat) (new : Slot Body), after[index]? = some new →
      ∃ old, slots[index]? = some old ∧ Keeps old new) : Denotes after grants := by
  intro grant hgrant other slot hother hslot hused
  obtain ⟨old, hold, hkeep⟩ := hkeeps other slot hslot
  obtain ⟨hwas, hser⟩ := hkeep hused
  rw [hser]
  exact hslots grant hgrant other old hother hold hwas

lemma Denotes.modify (index : Nat)
    (hchg : ∀ slot, Keeps slot (change slot)) : Denotes (slots.modify index change) grants := by
  refine hslots.of_keeps fun other new hnew => ?_
  rw [List.getElem?_modify] at hnew
  obtain ⟨old, hold, hvalue⟩ := Option.map_eq_some_iff.mp hnew
  refine ⟨old, hold, ?_⟩
  rw [← hvalue]
  split
  · exact hchg old
  · exact .refl old

lemma Denotes.map
    (hchg : ∀ slot, Keeps slot (change slot)) : Denotes (slots.map change) grants := by
  refine hslots.of_keeps fun other new hnew => ?_
  rw [List.getElem?_map] at hnew
  obtain ⟨old, hold, rfl⟩ := Option.map_eq_some_iff.mp hnew
  exact ⟨old, hold, hchg old⟩

end NamedSlots
