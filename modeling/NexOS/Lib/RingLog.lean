import Mathlib

/-! # Ring logs

A log of numbered entries that keeps the last of them in a ring of slots. Numbers start
at one and are counted in 32 bits. A reader with a cursor asks for the first entry
behind it; entries that have left the ring are passed over.
-/

namespace NexOS

open Nat

/-- An entry and its number. -/
structure Stamped (α : Type*) where
  seq : Nat
  value : α
  deriving DecidableEq

/-- A ring that numbers its values and drops the oldest. -/
structure RingLog (α : Type*) where
  slots : Nat → Option (Stamped α)
  head : Nat
  tail : Nat
  count : Nat
  dropped : Nat
  seq : Nat

namespace RingLog

variable {α : Type*}

def empty : RingLog α := ⟨fun _ => none, 0, 0, 0, 0, 0⟩

/-- Make room for one entry; a full ring loses its oldest. -/
def evict (ring : RingLog α) (capacity : Nat) : RingLog α :=
  if capacity ≤ ring.count then
    { ring with
      tail := (ring.tail + 1) % capacity
      count := ring.count - 1
      dropped := (ring.dropped + 1) % 2 ^ 32 }
  else ring

/-- A value takes the place at the head. -/
def put (ring : RingLog α) (capacity : Nat) (value : α) : RingLog α :=
  { ring with
    slots := Function.update ring.slots ring.head (some ⟨(ring.seq + 1) % 2 ^ 32, value⟩)
    seq := (ring.seq + 1) % 2 ^ 32
    head := (ring.head + 1) % capacity
    count := ring.count + 1 }

/-- A value goes in; from a full ring the oldest one goes. -/
def push (ring : RingLog α) (capacity : Nat) (value : α) : RingLog α :=
  (ring.evict capacity).put capacity value

/-- The first entry behind the cursor in the next `remaining` slots. A slot that was
never filled has the number zero. -/
def scan (ring : RingLog α) (capacity cursor : Nat) : Nat → Nat → Option (Stamped α)
  | 0, _ => none
  | remaining + 1, index =>
    match (ring.slots index).filter (cursor < ·.seq) with
    | some entry => some entry
    | none => ring.scan capacity cursor remaining ((index + 1) % capacity)

/-- The oldest value behind a cursor. -/
def getAfter (ring : RingLog α) (capacity cursor : Nat) : Option (Stamped α) :=
  ring.scan capacity cursor ring.count ring.tail

/-! ## The log behind a ring -/

/-- The ring holds the last entries of the log. -/
structure Keeps (ring : RingLog α) (capacity : Nat) (log : List α) : Prop where
  small : log.length < 2 ^ 32
  seq : ring.seq = log.length
  count : ring.count = min log.length capacity
  head : ring.head = log.length % capacity
  tail : ring.tail = (log.length - capacity) % capacity
  slot : ∀ i (hi : i < log.length), log.length ≤ i + capacity →
    ring.slots (i % capacity) = some ⟨i + 1, log[i]⟩

lemma keeps_empty (capacity : Nat) : (empty : RingLog α).Keeps capacity [] where
  small := Nat.two_pow_pos 32
  seq := rfl
  count := (Nat.zero_min capacity).symm
  head := (Nat.zero_mod capacity).symm
  tail := by rw [List.length_nil, Nat.zero_sub]; rfl
  slot i hi := absurd hi (Nat.not_lt_zero i)

variable {ring : RingLog α} {capacity : Nat} {log : List α}

/-- Less than a full turn apart, entries are in different slots. -/
lemma slot_ne {i n : Nat} (hlt : i < n) (hle : n + 1 ≤ i + capacity) :
    i % capacity ≠ n % capacity := by
  intro hmod
  have hdvd := (modEq_iff_dvd' hlt.le).mp hmod
  exact absurd (le_of_dvd (by omega) hdvd) (by omega)

lemma Keeps.push (hkeeps : ring.Keeps capacity log) (hpos : 0 < capacity)
    (hsmall : log.length + 1 < 2 ^ 32) (value : α) :
    (ring.push capacity value).Keeps capacity (log ++ [value]) := by
  have hseq : (ring.evict capacity).seq = log.length := by
    rw [← hkeeps.seq]
    unfold evict
    split <;> rfl
  have hhead : (ring.evict capacity).head = log.length % capacity := by
    rw [← hkeeps.head]
    unfold evict
    split <;> rfl
  have hslots : (ring.evict capacity).slots = ring.slots := by
    unfold evict
    split <;> rfl
  have hlen : (log ++ [value]).length = log.length + 1 := by simp
  have hnext : (log.length + 1) % 2 ^ 32 = log.length + 1 := Nat.mod_eq_of_lt hsmall
  constructor
  · rwa [hlen]
  · rw [hlen, ← hnext, ← hseq]
    rfl
  · have hcount := hkeeps.count
    change (ring.evict capacity).count + 1 = _
    unfold evict
    split
    · change ring.count - 1 + 1 = _
      omega
    · omega
  · rw [hlen, ← Nat.mod_add_mod, ← hhead]
    rfl
  · have hcount := hkeeps.count
    change (ring.evict capacity).tail = _
    unfold evict
    split
    · change (ring.tail + 1) % capacity = _
      rw [hkeeps.tail, Nat.mod_add_mod]
      congr 1
      omega
    · rw [hkeeps.tail]
      congr 1
      omega
  · intro i hi hle
    rw [hlen] at hi hle
    change Function.update (ring.evict capacity).slots (ring.evict capacity).head
      (some ⟨((ring.evict capacity).seq + 1) % 2 ^ 32, value⟩) (i % capacity) = _
    rw [hslots, hhead, hseq, hnext]
    rcases Nat.lt_succ_iff_lt_or_eq.mp hi with hlt | rfl
    · rw [Function.update_of_ne (slot_ne hlt hle), hkeeps.slot i hlt (by omega),
        List.getElem_append_left hlt]
    · simp

/-- The position of the first value behind the cursor that the ring still has. -/
def next (capacity : Nat) (log : List α) (cursor : Nat) : Nat := max cursor (log.length - capacity)

lemma Keeps.scan (hkeeps : ring.Keeps capacity log) {remaining i : Nat} (cur : Nat)
    (hle : log.length ≤ i + capacity) (hrem : i + remaining = log.length) :
    ring.scan capacity cur remaining (i % capacity) =
      (log[max cur i]?).map (Stamped.mk (max cur i + 1)) := by
  induction remaining generalizing i with
  | zero =>
    rw [List.getElem?_eq_none (by omega)]
    rfl
  | succ remaining ih =>
    have hi : i < log.length := by omega
    have hrest := ih (i := i + 1) (by omega) (by omega)
    unfold RingLog.scan
    rw [hkeeps.slot i hi hle, Option.filter_some]
    by_cases hbehind : cur < i + 1
    · rw [if_pos (decide_eq_true hbehind), max_eq_right (le_of_lt_succ hbehind),
        List.getElem?_eq_getElem hi]
      rfl
    · rw [if_neg (by rwa [decide_eq_true_iff])]
      rw [mod_add_mod, hrest, max_eq_left (Nat.le_of_not_lt hbehind),
        max_eq_left (show i ≤ cur by omega)]

lemma Keeps.getAfter (hkeeps : ring.Keeps capacity log) (cur : Nat) :
    ring.getAfter capacity cur =
      (log[next capacity log cur]?).map (Stamped.mk (next capacity log cur + 1)) := by
  unfold RingLog.getAfter
  rw [hkeeps.tail]
  exact hkeeps.scan cur (by omega) (by rw [hkeeps.count]; omega)

end RingLog

end NexOS
