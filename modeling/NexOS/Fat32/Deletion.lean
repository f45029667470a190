import NexOS.Fat32.Scan

/-! # Deletion of an entry

An entry knows how many pieces of a long name were read for it. These pieces are the
slots right before its own, so that deletion, which counts back from the entry, marks
the slots of this entry and no others.
-/

namespace NexOS.Fat32

open List

variable {state : LfnState} {index : Nat} {slots : List Slot} {slot : Slot} {front : List Slot}

/-! ## Where an entry is -/

/-- An entry of a directory is in a slot before the end mark. -/
structure EntryAt (state : LfnState) (index : Nat) (slots : List Slot) (entry : Entry)
    (front : List Slot) (slot : Slot) (back : List Slot) : Prop where
  slots_eq : slots = front ++ slot :: back
  front_not_isEnd : ∀ s ∈ front, s.isEnd = false
  isEntry : slot.isEntry = true
  entry_eq : entryAt slot (stateAfter state front) (index + front.length) = some entry

lemma exists_entryAt {entry : Entry} (hentry : entry ∈ entriesFrom state index slots) :
    ∃ front slot back, EntryAt state index slots entry front slot back := by
  induction slots generalizing state index with
  | nil => exact absurd hentry not_mem_nil
  | cons slot rest ih =>
    rw [entriesFrom] at hentry
    cases hend : slot.isEnd with
    | true => simp [hend] at hentry
    | false =>
      rw [if_neg (by simp [hend]), mem_append, Option.mem_toList] at hentry
      rcases hentry with hhere | hlater
      · refine ⟨[], slot, rest, rfl, forall_mem_nil _, ?_, hhere⟩
        by_contra hslot
        rw [Bool.not_eq_true] at hslot
        rw [entryAt_of_not_isEntry hslot] at hhere
        exact absurd hhere (Option.not_mem_none _)
      · obtain ⟨front, found, back, hat⟩ := ih hlater
        refine ⟨slot :: front, found, back, by rw [hat.slots_eq]; rfl, ?_, hat.isEntry, ?_⟩
        · exact forall_mem_cons.mpr ⟨hend, hat.front_not_isEnd⟩
        · rw [length_cons, ← hat.entry_eq]
          congr 1
          omega

/-! ## The pieces before it -/

/-- A piece that is taken begins a name or goes on with the one that was begun. -/
lemma lfnCapture_valid (hvalid : (lfnCapture state slot).valid = true) :
    ((lfnCapture state slot).nextOrder + 1 = (lfnCapture state slot).totalEntries) ∨
      (state.valid = true ∧ (lfnCapture state slot).nextOrder + 1 = state.nextOrder ∧
        (lfnCapture state slot).totalEntries = state.totalEntries) := by
  unfold lfnCapture at hvalid ⊢
  dsimp only at hvalid ⊢
  generalize (slot 0 &&& 0x1f).toNat = order at hvalid ⊢
  -- the state that the piece is added to
  obtain ⟨begun, hstate⟩ : ∃ begun : LfnState, (if slot 0 &&& 0x40 ≠ 0 then
      { valid := true, checksum := slot 13, nextOrder := order, totalEntries := order }
    else state) = begun := ⟨_, rfl⟩
  have hbegun : begun =
      { valid := true, checksum := slot 13, nextOrder := order, totalEntries := order } ∨
        begun = state := hstate ▸ ite_eq_or_eq _ _ _
  rw [hstate] at hvalid ⊢
  by_cases hbad : slot.isLfn = false ∨ order = 0 ∨ 20 < order ∨ slot 12 ≠ 0
  · rw [if_pos hbad] at hvalid
    exact Bool.noConfusion hvalid
  by_cases hother : begun.valid = false ∨ begun.checksum ≠ slot 13 ∨ begun.nextOrder ≠ order
  · rw [if_neg hbad, if_pos hother] at hvalid
    exact Bool.noConfusion hvalid
  rw [if_neg hbad, if_neg hother] at hvalid ⊢
  cases hname : lfnAppendPiece begun.name ((order - 1) * 13) slot 13 with
  | none =>
    rw [hname] at hvalid
    exact Bool.noConfusion hvalid
  | some name =>
    rw [hname] at hvalid
    dsimp only at hvalid ⊢
    rcases hbegun with rfl | rfl
    · dsimp only
      omega
    · right
      exact ⟨hvalid, by omega, rfl⟩

/-- The pieces that were taken are the slots that were read last. -/
lemma exists_pieces_of_valid (hvalid : (stateAfter {} front).valid = true) :
    (stateAfter {} front).nextOrder < (stateAfter {} front).totalEntries ∧
    ∃ before row, front = before ++ row ∧
      row.length + (stateAfter {} front).nextOrder = (stateAfter {} front).totalEntries ∧
      ∀ slot ∈ row, slot.isFree = false ∧ slot.isLfn = true := by
  induction front using List.reverseRecOn with
  | nil => exact Bool.noConfusion hvalid
  | append_singleton front slot ih =>
    rw [stateAfter_append, stateAfter_cons, stateAfter_nil] at hvalid ⊢
    by_cases hslot : slot.isFree = false ∧ slot.isLfn = true
    · rw [stepState_of_isLfn hslot.1 hslot.2] at hvalid ⊢
      rcases lfnCapture_valid hvalid with hfirst | ⟨hbegun, hnext, htotal⟩
      · refine ⟨by omega, front, [slot], rfl, ?_, by simpa using hslot⟩
        rw [length_singleton]
        omega
      obtain ⟨hle, before, row, hfront, hlen, hrow⟩ := ih hbegun
      refine ⟨by omega, before, row ++ [slot], ?_, ?_, ?_⟩
      · rw [hfront, append_assoc]
      · rw [length_append, length_singleton]
        omega
      · simp only [mem_append, mem_singleton]
        rintro s (hs | rfl)
        · exact hrow s hs
        · exact hslot
    · rw [stepState, if_neg hslot] at hvalid
      exact Bool.noConfusion hvalid

/-- The slots of an entry: its pieces and its own. -/
lemma EntryAt.exists_row {entry : Entry} {back : List Slot}
    (hat : EntryAt {} index slots entry front slot back) :
    ∃ before row, front = before ++ row ∧ row.length = entry.file.lfnEntryCount ∧
      entry.file.direntIndex = index + front.length ∧
      ∀ s ∈ row, s.isFree = false ∧ s.isLfn = true := by
  have hentry := hat.entry_eq
  rw [entryAt, fillFile_of_isEntry hat.isEntry, Option.map_some, Option.some.injEq] at hentry
  rw [← hentry]
  dsimp only
  split
  next hlong =>
    obtain ⟨-, before, row, hfront, hlen, hrow⟩ := exists_pieces_of_valid hlong.1.1
    exact ⟨before, row, hfront, by have := hlong.1.2.1; omega, rfl, hrow⟩
  · exact ⟨front, [], (append_nil _).symm, rfl, rfl, forall_mem_nil _⟩

/-! ## The loop -/

lemma modify_append_cons (front back : List Slot) (slot : Slot) (update : Slot → Slot) :
    (front ++ slot :: back).modify front.length update = front ++ update slot :: back := by
  induction front with
  | nil => rfl
  | cons head front ih => simpa using ih

/-- Deletion marks the slots of a row, from the last one back. -/
lemma deleteFrom_row (front row back : List Slot) (slot : Slot) (isEntry : Bool) :
    deleteFrom (front ++ row ++ slot :: back) isEntry (front ++ row).length (row.length + 1) =
      (true, front ++ row.map (deletedSlot false) ++ deletedSlot isEntry slot :: back) := by
  induction row using List.reverseRecOn generalizing slot back isEntry with
  | nil =>
    rw [deleteFrom, modify_append_cons]
    simp
  | append_singleton row last ih =>
    rw [deleteFrom, modify_append_cons]
    have hrest := ih (deletedSlot isEntry slot :: back) last false
    simpa using hrest

lemma deleteEntryChain_eq {row back : List Slot} {file : File}
    (hindex : file.direntIndex = (front ++ row).length) (hcount : row.length = file.lfnEntryCount) :
    deleteEntryChain (front ++ row ++ slot :: back) file =
      (true, front ++ row.map (deletedSlot false) ++ deletedSlot true slot :: back) := by
  rw [deleteEntryChain, hindex, ← hcount, deleteFrom_row]

lemma isFree_deletedSlot (isEntry : Bool) (slot : Slot) :
    (deletedSlot isEntry slot).isFree = true := by
  cases isEntry <;> rfl

end NexOS.Fat32
