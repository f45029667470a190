import NexOS.Fat32.Lookup

/-! # Entries by their slots

An entry is named by the index of its slot. Creating, deleting and updating an entry
change what is at one index and leave everything else in the directory as it is.
-/

namespace NexOS.Fat32

open List Option

variable {slots slots' front back : List Slot} {slot : Slot} {state : LfnState} {index : Nat}
  {entry : Entry}

/-- The entry whose short slot has this index. -/
def entryOf (slots : List Slot) (index : Nat) : Option Entry :=
  (entries slots).find? fun entry => decide (entry.file.direntIndex = index)

lemma direntIndex_of_entryAt (hentry : entryAt slot state index = some entry) :
    entry.file.direntIndex = index := by
  by_cases hslot : slot.isEntry = true
  · rw [entryAt, fillFile_of_isEntry hslot, map_some, Option.some.injEq] at hentry
    rw [← hentry]
  · rw [entryAt_of_not_isEntry (by simpa using hslot)] at hentry
    cases hentry

/-- The entries come in the order of their slots. -/
lemma entriesFrom_ordered (state : LfnState) (index : Nat) (slots : List Slot) :
    (∀ entry ∈ entriesFrom state index slots, index ≤ entry.file.direntIndex) ∧
      (entriesFrom state index slots).Pairwise fun first second =>
        first.file.direntIndex < second.file.direntIndex := by
  induction slots generalizing state index with
  | nil => exact ⟨forall_mem_nil _, .nil⟩
  | cons slot slots ih =>
    rw [entriesFrom]
    split
    · exact ⟨forall_mem_nil _, .nil⟩
    obtain ⟨hlater, hord⟩ := ih (stepState state slot) (index + 1)
    cases hentry : entryAt slot state index with
    | none =>
      exact ⟨fun entry hmem => Nat.le_of_succ_le (hlater entry hmem), hord⟩
    | some found =>
      have hindex := direntIndex_of_entryAt hentry
      rw [toList_some, singleton_append, forall_mem_cons, pairwise_cons]
      refine ⟨⟨hindex.ge, fun entry hmem => Nat.le_of_succ_le (hlater entry hmem)⟩, ?_, hord⟩
      intro entry hmem
      have := hlater entry hmem
      omega

lemma entryOf_eq_some_iff :
    entryOf slots index = some entry ↔ entry ∈ entries slots ∧ entry.file.direntIndex = index := by
  constructor
  · intro hfound
    exact ⟨mem_of_find?_eq_some hfound, by simpa using find?_some hfound⟩
  rintro ⟨hmem, rfl⟩
  obtain ⟨before, after, hsplit⟩ := append_of_mem hmem
  have hord := (entriesFrom_ordered {} 0 slots).2
  rw [← entries, hsplit, pairwise_append] at hord
  rw [entryOf, hsplit, find?_append, find?_eq_none.mpr, none_or, find?_cons_of_pos (by simp)]
  intro other hother
  have hlt := hord.2.2 other hother entry mem_cons_self
  simp only [decide_eq_true_eq]
  omega

/-- At one index the entry is another one, and all others are the same. -/
lemma entryOf_splice {before after : List Entry} {old new : Option Entry}
    (hold : entries slots = before ++ (old.toList ++ after))
    (hnew : entries slots' = before ++ (new.toList ++ after))
    (holdIndex : ∀ entry ∈ old, entry.file.direntIndex = index)
    (hnewIndex : ∀ entry ∈ new, entry.file.direntIndex = index) (hsome : old ≠ none ∨ new ≠ none) :
    entryOf slots index = old ∧
      ∀ other, entryOf slots' other = if other = index then new else entryOf slots other := by
  -- the entries around have other indices, since one of the two lists has this one
  have hothers : ∀ entry ∈ before ++ after, entry.file.direntIndex ≠ index := by
    have hcore : ∀ {middle : Option Entry} {row : List Slot},
        entries row = before ++ (middle.toList ++ after) → middle ≠ none →
        (∀ entry ∈ middle, entry.file.direntIndex = index) →
        ∀ entry ∈ before ++ after, entry.file.direntIndex ≠ index := by
      intro middle row hrow hmid hindex entry hentry
      obtain ⟨found, rfl⟩ := ne_none_iff_exists'.mp hmid
      have hord := (entriesFrom_ordered {} 0 row).2
      rw [← entries, hrow, toList_some, singleton_append, pairwise_append, pairwise_cons] at hord
      have hfound := hindex found rfl
      rcases mem_append.mp hentry with hbefore | hafter
      · have := hord.2.2 entry hbefore found mem_cons_self
        omega
      · have := hord.2.1.1 entry hafter
        omega
    rcases hsome with hsome | hsome
    · exact hcore hold hsome holdIndex
    · exact hcore hnew hsome hnewIndex
  have hfind : ∀ (middle : Option Entry), (∀ entry ∈ middle, entry.file.direntIndex = index) →
      ((before ++ (middle.toList ++ after)).find? fun entry =>
        decide (entry.file.direntIndex = index)) = middle := by
    intro middle hindex
    have hbefore : before.find? (fun entry => decide (entry.file.direntIndex = index)) = none :=
      find?_eq_none.mpr fun entry hentry => by simp [hothers entry (by simp [hentry])]
    have hafter : after.find? (fun entry => decide (entry.file.direntIndex = index)) = none :=
      find?_eq_none.mpr fun entry hentry => by simp [hothers entry (by simp [hentry])]
    cases middle with
    | none => simp [hbefore, hafter]
    | some found => simp [hbefore, hindex found rfl]
  have hskip : ∀ (middle : Option Entry) (other : Nat), other ≠ index →
      (∀ entry ∈ middle, entry.file.direntIndex = index) →
      ((before ++ (middle.toList ++ after)).find? fun entry =>
        decide (entry.file.direntIndex = other)) =
        ((before ++ after).find? fun entry => decide (entry.file.direntIndex = other)) := by
    intro middle other hne hindex
    cases middle with
    | none => rfl
    | some found => simp [hindex found rfl, hne.symm]
  refine ⟨by rw [entryOf, hold, hfind old holdIndex], fun other => ?_⟩
  by_cases hother : other = index
  · rw [if_pos hother, hother, entryOf, hnew, hfind new hnewIndex]
  · rw [if_neg hother, entryOf, entryOf, hold, hnew, hskip old other hother holdIndex,
      hskip new other hother hnewIndex]

/-! ## Creation -/

/-- What is read of the slots of a new entry, whatever long name is read for it. -/
structure NewEntry (raw : List UInt8) (attributes : UInt8) (cluster index : Nat) (entry : Entry) :
    Prop where
  raw_eq : entry.raw = raw
  attributes_eq : entry.file.attributes = attributes
  firstCluster_eq : entry.file.firstCluster = cluster
  direntIndex_eq : entry.file.direntIndex = index

/-- A new entry is placed at an index that had none. -/
lemma FreeSpan.entryOf_put {name : Name} {raw : List UInt8} {lfns : Nat} {attr : UInt8}
    {cluster : Nat} {free : List Slot} (hspan : FreeSpan slots front free back)
    (hended : Ended slots) (hlen : free.length = lfns + 1)
    (hplan : Planned slots name raw lfns) (hattr : attr = 0 ∨ attr = attrDirectory)
    (hclus : cluster < 2 ^ 32) :
    ∃ new, NewEntry raw attr cluster (front.length + lfns) new ∧
      entryOf slots (front.length + lfns) = none ∧
      ∀ other, entryOf (front ++ (entrySlots name raw lfns attr cluster ++ back)) other =
        if other = front.length + lfns then some new else entryOf slots other := by
  obtain ⟨base, ext, hparts⟩ := hplan.raw_short
  have hentry := @isEntry_shortDirent raw base ext attr cluster hparts hattr
  have hput := @entries_put name raw lfns attr cluster front back
    (hspan.front_not_isEnd hended) hplan.count_le hentry
  have hold := hspan.entries_eq hended (ne_nil_of_length_eq_add_one hlen)
  rw [hlen] at hold
  rw [entryAt, fillFile_of_isEntry hentry, rawName_shortDirent hparts.length,
    firstCluster_shortDirent hclus] at hput
  obtain ⟨hvac, hothers⟩ := @entryOf_splice _ _ (front.length + lfns) _ _ none (some _) hold hput
    (by simp) (by rintro entry ⟨⟩; rfl) (.inr (some_ne_none _))
  exact ⟨_, ⟨rfl, rfl, rfl, rfl⟩, hvac, hothers⟩

/-! ## Deletion and update -/

variable (hat : EntryAt {} 0 slots entry front slot back)

include hat

lemma EntryAt.entryOf_removed {before row : List Slot}
    (hfront : front = before ++ row) (hrow : ∀ s ∈ row, s.isFree = false ∧ s.isLfn = true) :
    ∀ other, entryOf (removedSlots before row slot back) other =
      if other = entry.file.direntIndex then none else entryOf slots other :=
  (@entryOf_splice _ _ entry.file.direntIndex _ _ (some entry) none (hat.entries_eq hfront hrow)
    (hat.entries_removed hfront) (by rintro other ⟨⟩; rfl) nofun (.inl nofun)).2

/-- The slot of an entry is replaced by that of an entry with the same short name. -/
lemma EntryAt.entryOf_updated {updated : Slot}
    (hentry : updated.isEntry = true) (hraw : updated.rawName = slot.rawName) :
    ∀ other, entryOf (front ++ updated :: back) other =
      if other = front.length then
        some ⟨{ entry.file with
          firstCluster := updated.firstCluster
          size := updated.fileSize
          attributes := updated.attr }, entry.raw⟩
      else entryOf slots other := by
  obtain ⟨hend, -, hlfn, -⟩ := Slot.isEntry_iff.mp hat.isEntry
  obtain ⟨hend', -, hlfn', -⟩ := Slot.isEntry_iff.mp hentry
  have hold := hat.entry_eq
  rw [entryAt, fillFile_of_isEntry hat.isEntry, map_some, Option.some.injEq, Nat.zero_add] at hold
  have hents : ∀ s : Slot, s.isEnd = false → s.isLfn = false →
      entries (front ++ s :: back) = entries front ++
        ((entryAt s (stateAfter {} front) front.length).toList ++
          entriesFrom {} (front.length + 1) back) := by
    intro s hsEnd hsLfn
    rw [entries, entriesFrom_append hat.front_not_isEnd, entriesFrom, if_neg (by simp [hsEnd]),
      stepState_of_not_isLfn hsLfn, Nat.zero_add]
    rfl
  have hbefore := hents slot hend hlfn
  have hafter := hents updated hend' hlfn'
  rw [← hat.slots_eq] at hbefore
  have hslot := hat.entry_eq
  rw [Nat.zero_add] at hslot
  rw [hslot] at hbefore
  rw [entryAt, fillFile_of_isEntry hentry, hraw] at hafter
  have hsplice := (@entryOf_splice _ _ front.length _ _ (some entry) (some _) hbefore hafter
    (by rintro other ⟨⟩; exact direntIndex_of_entryAt hslot) (by rintro other ⟨⟩; rfl)
    (.inl (some_ne_none _))).2
  rw [← hold]
  exact hsplice

end NexOS.Fat32
