import NexOS.Fat32.Directory

/-! # Scanning a directory

All scans of a directory see the same row of entries: they go over the slots up to
the end mark and carry along what was read of a long name. A free slot and an entry
both forget it, so that what comes after them is read the same whatever was before.
-/

namespace NexOS.Fat32

open List Nat

/-- An entry with its short name. -/
structure Entry where
  file : File
  raw : List UInt8

/-- The name is that of the entry, in its long or its short form. -/
def Entry.matches (entry : Entry) (name : Name) : Bool :=
  sameName entry.file.name name || sameName (formatName83 entry.raw) name

/-- The long name collected so far, after one more slot. -/
def stepState (state : LfnState) (slot : Slot) : LfnState :=
  if slot.isFree = false ∧ slot.isLfn then lfnCapture state slot else {}

def stateAfter (state : LfnState) (slots : List Slot) : LfnState := slots.foldl stepState state

/-- The entry that a slot ends. -/
def entryAt (slot : Slot) (state : LfnState) (index : Nat) : Option Entry :=
  (fillFileFromDirent slot state index).map fun file => ⟨file, slot.rawName⟩

/-- The entries of the slots from an index on. -/
def entriesFrom (state : LfnState) (index : Nat) : List Slot → List Entry
  | [] => []
  | slot :: rest =>
    if slot.isEnd then []
    else (entryAt slot state index).toList ++ entriesFrom (stepState state slot) (index + 1) rest

/-- The entries of a directory. -/
def entries (slots : List Slot) : List Entry := entriesFrom {} 0 slots

/-- The slot is the short slot of an entry. -/
def Slot.isEntry (slot : Slot) : Bool :=
  !slot.isEnd && !slot.isDeleted && !slot.isLfn && !slot.isVolume

variable {slot : Slot} {state : LfnState} {index : Nat} {slots rest : List Slot} {name : Name}
  {needed : Nat} {front back free run : List Slot}

lemma Slot.isEntry_iff : slot.isEntry = true ↔ slot.isEnd = false ∧ slot.isDeleted = false ∧
    slot.isLfn = false ∧ slot.isVolume = false := by
  simp [Slot.isEntry, and_assoc]

lemma Slot.isFree_iff : slot.isFree = true ↔ slot.isEnd = true ∨ slot.isDeleted = true := by
  simp [Slot.isFree]

lemma Slot.isFree_eq_false : slot.isFree = false ↔ slot.isEnd = false ∧ slot.isDeleted = false := by
  simp [Slot.isFree]

lemma entryAt_of_not_isEntry (hslot : slot.isEntry = false) : entryAt slot state index = none := by
  have hnot : (slot.isEnd || slot.isDeleted || slot.isLfn || slot.isVolume) = true := by
    rw [← Bool.not_eq_true, Slot.isEntry_iff] at hslot
    simpa [or_assoc, imp_iff_not_or] using hslot
  rw [entryAt, fillFileFromDirent, if_pos hnot, Option.map_none]

/-- The entry in a slot that holds one. The long name counts if it is complete and
has the checksum of the short name. -/
lemma fillFile_of_isEntry (hslot : slot.isEntry = true) :
    fillFileFromDirent slot state index = some
      { name := if state.Ready ∧ state.checksum = shortNameChecksum slot.rawName then
          bufferText state.name else formatName83 slot.rawName
        firstCluster := slot.firstCluster
        size := slot.fileSize
        attributes := slot.attr
        lfnEntryCount := if state.Ready ∧ state.checksum = shortNameChecksum slot.rawName then
          state.totalEntries else 0
        direntIndex := index } := by
  obtain ⟨hend, hdel, hlfn, hvol⟩ := Slot.isEntry_iff.mp hslot
  rw [fillFileFromDirent, if_neg (by simp [hend, hdel, hlfn, hvol])]

lemma stepState_of_isFree (hslot : slot.isFree = true) : stepState state slot = {} := by
  simp [stepState, hslot]

lemma stepState_of_not_isLfn (hslot : slot.isLfn = false) : stepState state slot = {} := by
  simp [stepState, hslot]

lemma stepState_of_isLfn (hfree : slot.isFree = false) (hslot : slot.isLfn = true) :
    stepState state slot = lfnCapture state slot := by
  simp [stepState, hfree, hslot]

/-- What a slot without an entry holds, and what becomes of the long name. -/
lemma Slot.not_isEntry_cases (state : LfnState) (hend : ¬slot.isEnd = true)
    (hslot : slot.isEntry = false) :
    slot.isDeleted = true ∧ stepState state slot = {} ∨
      slot.isDeleted = false ∧ slot.isLfn = true ∧ stepState state slot = lfnCapture state slot ∨
      slot.isDeleted = false ∧ slot.isLfn = false ∧ slot.isVolume = true ∧
        stepState state slot = {} := by
  cases hdel : slot.isDeleted <;> cases hlfn : slot.isLfn <;> cases hvol : slot.isVolume <;>
    simp_all [stepState, isFree, isEntry]

/-! ## Lookups -/

lemma matchDirentName_eq {file : File} (hfile : fillFileFromDirent slot state index = some file) :
    matchDirentName slot state name = Entry.matches ⟨file, slot.rawName⟩ name := by
  unfold fillFileFromDirent at hfile
  split_ifs at hfile with hslot
  rw [← Option.some.inj hfile, matchDirentName, fillFileFromDirent, if_neg hslot]
  rfl

/-- A lookup finds the first entry that answers to the name. -/
lemma findFrom_eq : findFrom state index name slots =
      ((entriesFrom state index slots).find? fun entry => entry.matches name).map Entry.file := by
  induction slots generalizing state index with
  | nil => rfl
  | cons slot rest ih =>
    rw [findFrom, entriesFrom]
    by_cases hend : slot.isEnd = true
    · rw [if_pos hend, if_pos hend]
      rfl
    rw [if_neg hend, if_neg hend]
    cases hslot : slot.isEntry with
    | true =>
      obtain ⟨-, hdel, hlfn, hvol⟩ := Slot.isEntry_iff.mp hslot
      obtain ⟨file, hfile⟩ : ∃ file, fillFileFromDirent slot state index = some file :=
        ⟨_, fillFile_of_isEntry hslot⟩
      rw [if_neg (by simp [hdel]), if_neg (by simp [hlfn]), if_neg (by simp [hvol]),
        matchDirentName_eq hfile, entryAt, hfile, stepState_of_not_isLfn hlfn, ih]
      cases hmatch : Entry.matches ⟨file, slot.rawName⟩ name <;> simp [hmatch]
    | false =>
      rw [entryAt_of_not_isEntry hslot, Option.toList_none, nil_append, ← ih]
      rcases Slot.not_isEntry_cases state hend hslot with ⟨hdel, hstate⟩ |
        ⟨hdel, hlfn, hstate⟩ | ⟨hdel, hlfn, hvol, hstate⟩ <;> simp [*]

lemma findInDirectory_eq : findInDirectory slots name =
      ((entries slots).find? fun entry => entry.matches name).map Entry.file :=
  findFrom_eq

lemma shortNameExists_iff {raw : List UInt8} :
    shortNameExists slots raw = true ↔ ∃ entry ∈ entries slots, entry.raw = raw := by
  have hall : ∀ state index, shortNameExists slots raw = true ↔
      ∃ entry ∈ entriesFrom state index slots, entry.raw = raw := by
    induction slots with
    | nil => simp [shortNameExists, entriesFrom]
    | cons slot rest ih =>
      intro state index
      cases hend : slot.isEnd with
      | true => simp [shortNameExists, entriesFrom, hend]
      | false =>
        have hsplit : shortNameExists (slot :: rest) raw = true ↔
            (slot.isEntry = true ∧ slot.rawName = raw) ∨ shortNameExists rest raw = true := by
          simp [shortNameExists, Slot.isEntry, hend]
        rw [hsplit, ih (stepState state slot) (index + 1), entriesFrom, if_neg (by simp [hend])]
        cases hslot : slot.isEntry with
        | true =>
          rw [entryAt, fillFile_of_isEntry hslot]
          simp
        | false => simp [entryAt_of_not_isEntry hslot]
  exact hall {} 0

/-! ## Rows of slots -/

lemma stateAfter_append (state : LfnState) (front back : List Slot) :
    stateAfter state (front ++ back) = stateAfter (stateAfter state front) back :=
  foldl_append

@[simp] lemma stateAfter_cons (state : LfnState) (slot : Slot) (rest : List Slot) :
    stateAfter state (slot :: rest) = stateAfter (stepState state slot) rest := rfl

@[simp] lemma stateAfter_nil (state : LfnState) : stateAfter state [] = state := rfl

lemma entriesFrom_append (hfront : ∀ slot ∈ front, slot.isEnd = false) (state : LfnState)
    (index : Nat) (back : List Slot) :
    entriesFrom state index (front ++ back) = entriesFrom state index front ++
      entriesFrom (stateAfter state front) (index + front.length) back := by
  induction front generalizing state index with
  | nil => rfl
  | cons slot front ih =>
    rw [forall_mem_cons] at hfront
    rw [cons_append, entriesFrom, entriesFrom, if_neg (by simp [hfront.1]),
      if_neg (by simp [hfront.1]), ih hfront.2, append_assoc, stateAfter_cons,
      length_cons, add_right_comm, add_assoc]

/-- After the end mark there is nothing but end marks. -/
def Ended (slots : List Slot) : Prop :=
  ∀ front slot back, slots = front ++ slot :: back → slot.isEnd = true →
    ∀ later ∈ back, later.isEnd = true

lemma entriesFrom_of_isEnd (hback : ∀ slot ∈ back, slot.isEnd = true) (state : LfnState)
    (index : Nat) : entriesFrom state index back = [] := by
  cases back with
  | nil => rfl
  | cons slot back =>
    rw [entriesFrom, if_pos (hback slot mem_cons_self)]

/-- A row of free slots has no entries, and what is after it is read afresh. -/
lemma entriesFrom_free (hne : free ≠ []) (hfree : ∀ slot ∈ free, slot.isFree = true)
    (state : LfnState) (index : Nat) (hended : Ended (free ++ back)) :
    entriesFrom state index (free ++ back) = entriesFrom {} (index + free.length) back := by
  induction free generalizing state index with
  | nil => exact absurd rfl hne
  | cons slot free ih =>
    rw [forall_mem_cons] at hfree
    rw [cons_append, entriesFrom]
    cases hend : slot.isEnd with
    | true =>
      have hlater := hended [] slot (free ++ back) rfl hend
      rw [if_pos rfl, entriesFrom_of_isEnd fun s hs => hlater s (mem_append_right _ hs)]
    | false =>
      have hdel : slot.isEntry = false := by
        have := Slot.isFree_iff.mp hfree.1
        simp [Slot.isEntry, hend] at this ⊢
        simp [this]
      rw [entryAt_of_not_isEntry hdel, stepState_of_isFree hfree.1]
      rcases free with _ | ⟨next, free⟩
      · rfl
      rw [ih (by simp) hfree.2 {} (index + 1) fun front s later h => hended (slot :: front) s later
        (by rw [cons_append, h]; rfl)]
      simp [add_assoc, add_comm 1]

lemma stateAfter_free (hne : free ≠ []) (hfree : ∀ slot ∈ free, slot.isFree = true)
    (state : LfnState) : stateAfter state free = {} := by
  induction free generalizing state with
  | nil => exact absurd rfl hne
  | cons slot free ih =>
    rw [forall_mem_cons] at hfree
    rw [stateAfter_cons, stepState_of_isFree hfree.1]
    cases free with
    | nil => rfl
    | cons next free => exact ih (by simp) hfree.2 {}

/-! ## Free rows -/

/-- Where a free row was found: `needed` free slots, right after a slot that is used or
at the start. -/
structure FreeSpan (slots front free back : List Slot) : Prop where
  slots_eq : slots = front ++ (free ++ back)
  free_isFree : ∀ slot ∈ free, slot.isFree = true
  front_used : front = [] ∨ ∃ before slot, front = before ++ [slot] ∧ slot.isFree = false

lemma exists_freeSpan_of_locateFrom {start : Nat} (hrun : ∀ slot ∈ run, slot.isFree = true)
    (hshort : run.length < needed)
    (hfront : front = [] ∨ ∃ before slot, front = before ++ [slot] ∧ slot.isFree = false)
    (hloc : locateFrom needed run.length (front.length + run.length) rest = some start) :
    ∃ front' free back, FreeSpan (front ++ (run ++ rest)) front' free back ∧
      front'.length = start ∧ free.length = needed := by
  induction rest generalizing front run with
  | nil => simp [locateFrom] at hloc
  | cons slot rest ih =>
    rw [locateFrom] at hloc
    cases hslot : slot.isFree with
    | true =>
      have hrun' : ∀ s ∈ run ++ [slot], s.isFree = true := by
        simp only [mem_append, mem_singleton]
        rintro s (hs | rfl)
        · exact hrun s hs
        · exact hslot
      rw [if_pos hslot] at hloc
      by_cases henough : needed ≤ run.length + 1
      · rw [if_pos henough, Option.some.injEq] at hloc
        refine ⟨front, run ++ [slot], rest, ⟨by simp, hrun', hfront⟩, by omega, ?_⟩
        rw [length_append, length_singleton]
        omega
      · rw [if_neg henough] at hloc
        have hnext := ih hrun' (by simp; omega) hfront (by simpa [add_assoc] using hloc)
        simpa using hnext
    | false =>
      rw [if_neg (by simp [hslot])] at hloc
      have hnext := @ih (front ++ run ++ [slot]) [] nofun (zero_lt_of_lt hshort)
        (.inr ⟨front ++ run, slot, rfl, hslot⟩) (by simpa [add_assoc] using hloc)
      simpa using hnext

lemma exists_freeSpan {start : Nat} (hpos : 0 < needed)
    (hloc : locateFreeDirentSpan slots needed = some start) :
    ∃ front free back, FreeSpan slots front free back ∧ front.length = start ∧
      free.length = needed := by
  simpa using @exists_freeSpan_of_locateFrom slots needed [] [] start nofun hpos (.inl rfl)
    (by simpa [locateFreeDirentSpan] using hloc)

/-- There are so many free slots in a row. -/
def HasRow (needed : Nat) (slots : List Slot) : Prop :=
  ∃ front free back, slots = front ++ (free ++ back) ∧ free.length = needed ∧
    ∀ slot ∈ free, slot.isFree = true

/-- A row that is longer than what is before a used slot lies behind that slot. -/
lemma HasRow.of_used (hrow : HasRow needed (run ++ slot :: rest)) (hused : slot.isFree = false)
    (hshort : run.length < needed) : HasRow needed rest := by
  obtain ⟨front, free, back, hslots, hlen, hfree⟩ := hrow
  have hnot : slot ∉ free := fun hmem => by simp [hfree slot hmem] at hused
  rcases append_eq_append_iff.mp hslots with ⟨between, rfl, hrest⟩ | ⟨between, rfl, hrest⟩
  · cases between with
    | nil =>
      -- the row would begin with the used slot
      cases free with
      | nil => exact absurd hshort (by simp [← hlen])
      | cons first free => exact absurd (List.cons.inj hrest).1 fun h => hnot (h ▸ mem_cons_self)
    | cons first between =>
      exact ⟨between, free, back, (List.cons.inj hrest).2, hlen, hfree⟩
  · -- the row begins before the used slot and would reach over it
    have hget : free[between.length]? = some slot := by
      have hlt : between.length < free.length := by
        rw [length_append] at hshort
        omega
      rw [← getElem?_append_left hlt, hrest, getElem?_append_right le_rfl, Nat.sub_self]
      rfl
    exact absurd (mem_of_getElem? hget) hnot

lemma locateFrom_isSome_of_hasRow (hrun : ∀ slot ∈ run, slot.isFree = true)
    (hshort : run.length < needed) (hrow : HasRow needed (run ++ rest)) :
    (locateFrom needed run.length index rest).isSome = true := by
  induction rest generalizing run index with
  | nil =>
    obtain ⟨front, free, back, hslots, hlen, -⟩ := hrow
    have htotal := congrArg List.length hslots
    simp only [length_append, length_nil] at htotal
    omega
  | cons slot rest ih =>
    rw [locateFrom]
    cases hslot : slot.isFree with
    | true =>
      by_cases henough : needed ≤ run.length + 1
      · rw [if_pos henough]
        rfl
      have hrun' : ∀ s ∈ run ++ [slot], s.isFree = true := by
        simp only [mem_append, mem_singleton]
        rintro s (hs | rfl)
        · exact hrun s hs
        · exact hslot
      rw [if_neg henough]
      have hnext := @ih (index + 1) _ hrun' (by simp; omega) (by simpa using hrow)
      simpa using hnext
    | false =>
      exact @ih (index + 1) [] nofun (zero_lt_of_lt hshort) (hrow.of_used hslot hshort)

/-- The search finds a row exactly if there is one. -/
lemma locateFreeDirentSpan_isSome_iff (hpos : 0 < needed) :
    (locateFreeDirentSpan slots needed).isSome = true ↔ HasRow needed slots := by
  constructor
  · intro hsome
    obtain ⟨start, hstart⟩ := Option.isSome_iff_exists.mp hsome
    obtain ⟨front, free, back, hspan, -, hlen⟩ := exists_freeSpan hpos hstart
    exact ⟨front, free, back, hspan.slots_eq, hlen, hspan.free_isFree⟩
  · intro hrow
    exact @locateFrom_isSome_of_hasRow 0 slots needed [] nofun hpos hrow

/-- Before a free row there is no end mark. -/
lemma FreeSpan.front_not_isEnd (hspan : FreeSpan slots front free back) (hended : Ended slots) :
    ∀ slot ∈ front, slot.isEnd = false := by
  intro slot hslot
  by_contra hend
  rw [Bool.not_eq_false] at hend
  rcases hspan.front_used with rfl | ⟨before, last, rfl, hlast⟩
  · exact absurd hslot not_mem_nil
  -- the used slot before the row would be after the end mark
  obtain ⟨hlastEnd, -⟩ := Slot.isFree_eq_false.mp hlast
  obtain ⟨first, others, hsplit⟩ := append_of_mem hslot
  have hlater := hended first slot (others ++ (free ++ back))
    (by rw [hspan.slots_eq, hsplit]; simp) hend
  rcases eq_nil_or_concat others with rfl | ⟨others, final, rfl⟩
  · obtain ⟨-, hsame⟩ := append_inj' hsplit rfl
    rw [(List.cons.inj hsame).1] at hlastEnd
    simp [hend] at hlastEnd
  · obtain rfl : last = final := by
      have hsame := (append_inj' (by simpa using hsplit : before ++ [last] =
        (first ++ slot :: others) ++ [final]) rfl).2
      simpa using hsame
    rw [hlater last (by simp)] at hlastEnd
    simp at hlastEnd

end NexOS.Fat32
