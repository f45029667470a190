import Mathlib

/-! # Renaming by copying

`rename` opens the new file empty, copies the old one into it and removes the old one.
The first call that fails ends it; by then the contents of the new file may be gone.
-/

namespace NexOS.Libc

open List Function

/-- The call of a `rename` that fails. A write that takes only a part also ends the copy. -/
inductive Fault
  | openOld
  | openNew
  | read (round : ℕ)
  | write (round taken : ℕ)
  | remove
  deriving DecidableEq

variable {File : Type} [DecidableEq File]

/-- The files of the system with their bytes. -/
abbrev Files (File : Type) := File → Option (List UInt8)

/-- The bytes that a write takes over. -/
def taken (fault : Option Fault) (round : ℕ) (got : List UInt8) : List UInt8 :=
  match fault with
  | some (.write r count) => if r = round then got.take count else got
  | _ => got

/-- The loop over the buffers, with the place in the old file. The new file was opened empty,
so a write goes to its end. -/
def copyLoop (fault : Option Fault) (old new : File) :
    ℕ → ℕ → ℕ → Files File → Option (Bool × Files File)
  | 0, _, _, _ => none
  | fuel + 1, round, place, files =>
    let got := (((files old).getD []).drop place).take 1024
    if fault = some (.read round) then some (false, files)
    else if got = [] then some (true, files)
    else
      let out := taken fault round got
      let files := update files new (some ((files new).getD [] ++ out))
      if out.length ≠ got.length then some (false, files)
      else copyLoop fault old new fuel (round + 1) (place + got.length) files

/-- `rename`, with whether it returns 0. The copy has at most one round for each byte. -/
def rename (fault : Option Fault) (files : Files File) (old new : File) :
    Option (Bool × Files File) :=
  match files old with
  | none => some (false, files)
  | some contents =>
    if fault = some .openOld ∨ fault = some .openNew then some (false, files)
    else
      match copyLoop fault old new (contents.length + 1) 0 0 (update files new (some [])) with
      | none => none
      | some (false, files) => some (false, files)
      | some (true, files) =>
        if fault = some .remove then some (false, files) else some (true, update files old none)

/-- On success the data is at the new name only; on failure nothing changed. -/
def KeepsData (files : Files File) (old new : File) : Bool × Files File → Prop
  | (true, after) => if old = new then after = files else after new = files old ∧ after old = none
  | (false, after) => after old = files old ∧ after new = files new

/-- How many bytes are copied, and whether these are all. -/
def copied (fault : Option Fault) (length : ℕ) : Bool × ℕ :=
  match fault with
  | some (.read n) => if 1024 * n < length + 1024 then (false, 1024 * n) else (true, length)
  | some (.write n taken) =>
    if taken < 1024 ∧ 1024 * n + taken < length then (false, 1024 * n + taken) else (true, length)
  | _ => (true, length)

variable {fault : Option Fault} {old new : File} {files : Files File} {contents : List UInt8}

lemma copyLoop_spec {fuel round place : ℕ} (hne : old ≠ new) (hold : files old = some contents)
    (hplace : place = min (1024 * round) contents.length)
    (hnew : files new = some (contents.take place)) (hfuel : contents.length < fuel + place)
    (hround : 1024 * round < contents.length + 1024)
    (hread : ∀ n, fault = some (.read n) → round ≤ n)
    (hwrite : ∀ n t, fault = some (.write n t) → n < round →
      ¬(t < 1024 ∧ 1024 * n + t < contents.length)) :
    copyLoop fault old new fuel round place files =
      some ((copied fault contents.length).1,
        update files new (some (contents.take (copied fault contents.length).2))) := by
  induction fuel generalizing round place files with
  | zero => omega
  | succ fuel ih =>
    have hlen : ((contents.drop place).take 1024).length = min 1024 (contents.length - place) := by
      rw [length_take, length_drop]
    rw [copyLoop]
    simp only [hold, Option.getD_some]
    split
    next hfault =>
      have htake : contents.take place = contents.take (1024 * round) := by
        rw [hplace, take_eq_take_iff, min_assoc, min_self]
      rw [hfault, copied, if_pos hround, ← htake, ← hnew, update_eq_self]
    next hfault =>
    have hread' : ∀ n, fault = some (.read n) → round < n := fun n hn =>
      (hread n hn).lt_of_ne fun heq => hfault (heq ▸ hn)
    split
    next hnil =>
      -- At the end of the file, a call that is to fail has none left to fail in.
      have hend : contents.length ≤ place := by
        rw [hnil, length_nil] at hlen
        omega
      have hcopied : copied fault contents.length = (true, contents.length) := by
        unfold copied
        split
        · have hlater := hread' _ rfl
          rw [if_neg (by omega)]
        next n t =>
          by_cases hn : n < round
          · rw [if_neg (hwrite n t rfl hn)]
          · rw [if_neg (by omega)]
        · rfl
      rw [hcopied, take_length, ← take_of_length_le hend, ← hnew, update_eq_self]
    next hmore =>
      have hless : place < contents.length := by
        by_contra hend
        exact hmore (by rw [drop_of_length_le (by omega), take_nil])
      rw [hnew, Option.getD_some]
      -- A write that takes less than the buffer ends the copy; any other one takes all of it.
      by_cases hcut : ∃ count, fault = some (.write round count) ∧
          count < min 1024 (contents.length - place)
      · obtain ⟨count, rfl, hcount⟩ := hcut
        have hout : taken (some (.write round count)) round ((contents.drop place).take 1024) =
            (contents.drop place).take count := by
          rw [taken, if_pos rfl, take_take, min_eq_left (by omega)]
        rw [hout, if_pos (by rw [hlen, length_take, length_drop]; omega), copied,
          if_pos (by omega), ← take_add, show place + count = 1024 * round + count by omega]
      · have hout : taken fault round ((contents.drop place).take 1024) =
            (contents.drop place).take 1024 := by
          unfold taken
          split
          next r count =>
            split
            next hr =>
              refine take_of_length_le (not_lt.mp fun h => hcut ⟨count, by rw [hr], ?_⟩)
              omega
            · rfl
          · rfl
        rw [hout, if_neg (not_not.mpr rfl), ih]
        · rw [update_idem]
        · rw [update_of_ne hne, hold]
        · omega
        · rw [update_self, ← take_add, hlen, Option.some.injEq, take_eq_take_iff]
          omega
        · omega
        · omega
        · exact fun n hn => hread' n hn
        · intro n t hn hlt hshort
          by_cases heq : n = round
          · exact hcut ⟨t, by rw [hn, heq], by omega⟩
          · exact hwrite n t hn (by omega) hshort

/-- The old file cannot be opened, or the new one cannot. Otherwise both are the same empty
file and it is not removed, or they are two files, and all is done or the new one had just
those bytes that are copied. -/
def RenameSafe (fault : Option Fault) (files : Files File) (old new : File) : Prop :=
  match files old with
  | none => True
  | some contents =>
    fault = some .openOld ∨ fault = some .openNew ∨
      if old = new then contents = [] ∧ (fault = some (.read 0) ∨ fault = some .remove)
      else (copied fault contents.length).1 = true ∧ fault ≠ some .remove ∨
        files new = some (contents.take (copied fault contents.length).2)

/-- A rename always returns, and it keeps the data just under `RenameSafe`. -/
theorem rename_keeps_iff (fault : Option Fault) (files : Files File) (old new : File) :
    ∃ result, rename fault files old new = some result ∧
      (KeepsData files old new result ↔ RenameSafe fault files old new) := by
  unfold rename RenameSafe
  cases hold : files old with
  | none => exact ⟨_, rfl, by simp [KeepsData]⟩
  | some contents =>
    dsimp only
    by_cases hopen : fault = some .openOld ∨ fault = some .openNew
    · rw [if_pos hopen, ← or_assoc]
      exact ⟨_, rfl, by simp [KeepsData, hopen]⟩
    rw [if_neg hopen, ← or_assoc, or_iff_right hopen]
    by_cases hsame : old = new
    · -- The file was opened empty, so the first read is at its end.
      subst hsame
      rw [copyLoop, update_self, Option.getD_some, drop_nil, take_nil, if_pos rfl, if_pos rfl]
      by_cases hread : fault = some (.read 0)
      · rw [if_pos hread]
        exact ⟨_, rfl, by simp [KeepsData, hold, hread, eq_comm]⟩
      · rw [if_neg hread]
        dsimp only
        split
        next hremove => exact ⟨_, rfl, by simp [KeepsData, hold, hremove, eq_comm]⟩
        next hremove =>
          refine ⟨_, rfl, iff_of_false (fun hkeeps => ?_) (by simp [hread, hremove])⟩
          rw [KeepsData, if_pos rfl] at hkeeps
          have hgone := congrFun hkeeps old
          rw [update_self, hold] at hgone
          cases hgone
    · rw [if_neg hsame, copyLoop_spec hsame (by rwa [update_of_ne hsame]) (by simp) (by simp)
        (by simp) (by omega) (fun n _ => n.zero_le) fun n t _ h => absurd h n.not_lt_zero,
        update_idem]
      have hall : (copied fault contents.length).1 = true →
          (copied fault contents.length).2 = contents.length := by
        unfold copied
        split
        · split <;> simp
        · split <;> simp
        · exact fun _ => rfl
      generalize copied fault contents.length = result at hall
      obtain ⟨_ | _, count⟩ := result
      · exact ⟨_, rfl, by simp [KeepsData, hsame, hold, eq_comm]⟩
      · obtain rfl : count = contents.length := hall rfl
        dsimp only
        split
        next hremove => exact ⟨_, rfl, by simp [KeepsData, hsame, hold, hremove, eq_comm]⟩
        next hremove => exact ⟨_, rfl, by simp [KeepsData, hsame, Ne.symm hsame, hold, hremove]⟩

/-- A write that fails leaves the new file empty, and a file that is renamed to itself is
removed. -/
theorem rename_loses_data :
    (∃ after, rename (some (.write 0 0)) (fun _ : Bool => some [1]) false true =
      some (false, after) ∧ after true = some []) ∧
    ∃ after, rename none (fun _ : Bool => some [1]) true true = some (true, after) ∧
      after true = none :=
  ⟨⟨_, rfl, rfl⟩, _, rfl, rfl⟩

end NexOS.Libc
