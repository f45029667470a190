import NexOS.Fat32.VolumeRemoval

/-! # Long names read back

A new entry with a long name is written as a row of slots, the pieces of the name before
the entry itself. What the scans of a directory read from the row is compared with what
creation reported, and deletion with the row that was written.
-/

namespace NexOS.Fat32

open List

/-! ## Listing -/

/-- The loop of `fat32_list_directory`, with the entries that were filled in. -/
def listFrom (maxEntries : Nat) (state : LfnState) (index : Nat) (found : List File) :
    List Slot → List File
  | [] => found
  | slot :: rest =>
    if slot.isEnd then found
    else if slot.isDeleted then listFrom maxEntries {} (index + 1) found rest
    else if slot.isLfn then listFrom maxEntries (lfnCapture state slot) (index + 1) found rest
    else if slot.isVolume then listFrom maxEntries {} (index + 1) found rest
    else if found.length < maxEntries then
      listFrom maxEntries {} (index + 1)
        (found ++ (fillFileFromDirent slot state index).toList) rest
    else listFrom maxEntries {} (index + 1) found rest

/-- The first entries of a directory. -/
def listDirectory (slots : List Slot) (maxEntries : Nat) : List File :=
  listFrom maxEntries {} 0 [] slots

variable {slots slots' : List Slot} {state : LfnState} {index maxEntries : Nat}

lemma listFrom_eq (found : List File) : listFrom maxEntries state index found slots =
      found ++ ((entriesFrom state index slots).map Entry.file).take
        (maxEntries - found.length) := by
  induction slots generalizing state index found with
  | nil => simp [listFrom, entriesFrom]
  | cons slot rest ih =>
    rw [listFrom, entriesFrom]
    by_cases hend : slot.isEnd = true
    · simp [hend]
    rw [if_neg hend, if_neg hend]
    cases hslot : slot.isEntry with
    | true =>
      obtain ⟨-, hdel, hlfn, hvol⟩ := Slot.isEntry_iff.mp hslot
      rw [if_neg (by simp [hdel]), if_neg (by simp [hlfn]), if_neg (by simp [hvol]),
        entryAt, stepState_of_not_isLfn hlfn, fillFile_of_isEntry hslot]
      by_cases hroom : found.length < maxEntries
      · obtain ⟨room, hmax⟩ : ∃ room, maxEntries - found.length = room + 1 :=
          ⟨maxEntries - found.length - 1, by omega⟩
        rw [if_pos hroom, ih, hmax]
        simp [show maxEntries - (found.length + 1) = room by omega]
      · rw [if_neg hroom, ih, show maxEntries - found.length = 0 by omega]
        simp
    | false =>
      rw [entryAt_of_not_isEntry hslot, Option.toList_none, nil_append]
      rcases Slot.not_isEntry_cases state hend hslot with ⟨hdel, hstate⟩ |
        ⟨hdel, hlfn, hstate⟩ | ⟨hdel, hlfn, hvol, hstate⟩ <;> simp [*]

/-- With room for all slots, the entries of a directory are listed. -/
lemma listDirectory_eq (slots : List Slot) :
    listDirectory slots slots.length = (entries slots).map Entry.file := by
  rw [listDirectory, listFrom_eq, take_of_length_le]
  · rfl
  · rw [length_map]
    exact Geometry.length_entriesFrom_le _ _ _

/-! ## The row of a new entry -/

/-- The directory with the slots that appending a cluster would add. -/
def grown (slots : List Slot) (grow : Option Nat) : List Slot :=
  slots ++ List.replicate (grow.getD 0) Slot.zero

/-- No end mark stands before the free row that is picked for an entry. -/
def PlacedBeforeEnd (slots : List Slot) (needed : Nat) (grow : Option Nat) : Prop :=
  ∀ start, locateFreeDirentSpan (grown slots grow) needed = some start →
    ∀ slot ∈ (grown slots grow).take start, slot.isEnd = false

lemma locateFrom_append {needed run start : Nat} {more : List Slot}
    (hloc : locateFrom needed run index slots = some start) :
    locateFrom needed run index (slots ++ more) = some start := by
  induction slots generalizing run index with
  | nil => cases hloc
  | cons slot rest ih =>
    rw [cons_append]
    unfold locateFrom at hloc ⊢
    split_ifs at hloc ⊢ with hfree henough
    · exact hloc
    · exact ih hloc
    · exact ih hloc

/-- Where a new entry was placed. -/
structure Placed (slots : List Slot) (name : EntryName) (attributes : UInt8) (cluster : Nat)
    (grow : Option Nat) (file : File) (slots' : List Slot) (raw : List UInt8) (lfnCount : Nat)
    (front free back : List Slot) : Prop where
  planned : Planned slots name.text raw lfnCount
  entries_eq : entries (front ++ (free ++ back)) = entries slots
  length_free : free.length = lfnCount + 1
  located : locateFreeDirentSpan (grown slots grow) (lfnCount + 1) = some front.length
  front_eq : (grown slots grow).take front.length = front
  file_eq : file = createdFile name.text raw lfnCount attributes cluster front.length
  slots_eq : slots' = front ++ (entrySlots name.text raw lfnCount attributes cluster ++ back)

variable {name : EntryName} {attr : UInt8} {cluster : Nat} {grow : Option Nat} {file : File}

lemma placed_of_locate {raw : List UInt8} {lfns start : Nat} {zeros more : List Slot}
    (hgrown : grown slots grow = slots ++ zeros ++ more)
    (hzeros : ∀ slot ∈ zeros, slot.isEnd = true)
    (hplan : planEntry slots name.text = some (raw, lfns))
    (hloc : locateFreeDirentSpan (slots ++ zeros) (lfns + 1) = some start) :
    ∃ front free back, Placed slots name attr cluster grow
      (createdFile name.text raw lfns attr cluster start)
      (writeSlots (slots ++ zeros) start (entrySlots name.text raw lfns attr cluster))
      raw lfns front free back := by
  obtain ⟨front, free, back, hspan, rfl, hlen⟩ := exists_freeSpan (Nat.succ_pos lfns) hloc
  refine ⟨front, free, back, planned_of_planEntry hplan, ?_, hlen, ?_, ?_, rfl, ?_⟩
  · rw [← hspan.slots_eq]
    exact entriesFrom_append_isEnd hzeros {} 0
  · rw [hgrown]
    exact locateFrom_append hloc
  · rw [hgrown, hspan.slots_eq, append_assoc, take_left]
  · exact writeSlots_span hspan (by rw [length_entrySlots, hlen])

lemma exists_placed (hcreate : createNamed slots name attr cluster grow = (some file, slots')) :
    ∃ raw lfns front free back,
      Placed slots name attr cluster grow file slots' raw lfns front free back := by
  unfold createNamed createEntryInDirectory at hcreate
  split at hcreate
  · exact absurd (congrArg Prod.fst hcreate) nofun
  rcases hplan : planEntry slots name.text with _ | plan
  · simp [hplan] at hcreate
  obtain ⟨raw, lfns⟩ := plan
  refine ⟨raw, lfns, ?_⟩
  simp only [hplan] at hcreate
  cases hloc : locateFreeDirentSpan slots (lfns + 1) with
  | some start =>
    simp only [hloc] at hcreate
    obtain ⟨rfl, rfl⟩ := hcreate
    have hplace := @placed_of_locate slots name attr cluster grow raw lfns start []
      (List.replicate (grow.getD 0) Slot.zero) (by simp [grown]) nofun hplan (by simpa using hloc)
    simpa using hplace
  | none =>
    rcases grow with _ | count
    · simp [hloc] at hcreate
    simp only [hloc] at hcreate
    cases hagain : locateFreeDirentSpan (slots ++ List.replicate count Slot.zero)
        (lfns + 1) with
    | none => simp [hagain] at hcreate
    | some start =>
      simp only [hagain] at hcreate
      obtain ⟨rfl, rfl⟩ := hcreate
      exact @placed_of_locate _ _ _ _ _ _ _ _ _ [] (by simp [grown]) (replicate_zero_isEnd count)
        hplan hagain

/-- The last piece of a name starts anew, so that it does not matter what was read before. -/
lemma stateAfter_pieces_start {text : Name} {total : Nat} {checksum : UInt8} {count : Nat}
    (hpos : 0 < count) (hcount : count ≤ total) (hle : total ≤ 20) :
    stateAfter state (pieces text total checksum count) =
      stateAfter {} (pieces text total checksum count) := by
  induction count with
  | zero => exact absurd hpos (Nat.lt_irrefl 0)
  | succ count ih =>
    rw [stateAfter_pieces_succ _ hcount hle, stateAfter_pieces_succ _ hcount hle]
    rcases Nat.eq_zero_or_pos count with rfl | hcountPos
    · have hstart : ∀ state, startState total (total - 0) checksum state =
          startState total (total - 0) checksum {} := fun state => by
        rw [startState, startState, if_pos (Nat.sub_zero _), if_pos (Nat.sub_zero _)]
      rw [lfnCapture_populate _ (by omega) (by omega), lfnCapture_populate _ (by omega) (by omega),
        hstart (stateAfter state _), hstart (stateAfter {} _)]
    · rw [ih hcountPos (by omega)]

namespace Placed

variable {raw : List UInt8} {lfns : Nat} {front free back : List Slot}
  (hplace : Placed slots name attr cluster grow file slots' raw lfns front free back)

include hplace

/-- What the scans read of a new entry, if they come to its row. -/
lemma entries_new (hpos : 0 < lfns) (hattr : attr = 0 ∨ attr = attrDirectory)
    (hclus : cluster < 2 ^ 32) (hfront : ∀ slot ∈ front, slot.isEnd = false) :
    entries slots' = entries front ++ readEntry name.text raw lfns attr cluster front.length ::
        entriesFrom {} (front.length + (lfns + 1)) back := by
  obtain ⟨base, ext, hparts⟩ := hplace.planned.raw_short
  have hle := hplace.planned.count_le
  rw [hplace.slots_eq, entries_put hfront hle (isEntry_shortDirent hparts hattr),
    stateAfter_pieces_start hpos le_rfl hle,
    entryAt_new hplace.planned name.nonzero hattr hclus not_ready_default front.length]
  rfl

/-- The entries before the row are not looked up by the new name. -/
lemma front_unmatched (hfront : ∀ slot ∈ front, slot.isEnd = false) :
    ∀ entry ∈ entries front, entry.matches name.text = false := by
  intro entry hentry
  apply hplace.planned.unmatched
  rw [← hplace.entries_eq, entries, entriesFrom_append hfront]
  exact mem_append_left _ hentry

/-- A scan that stops before the row reads nothing at the index of the new entry. -/
lemma direntIndex_lt_of_isEnd {slot : Slot} (hslot : slot ∈ front) (hend : slot.isEnd = true) :
    ∀ entry ∈ entries slots', entry.file.direntIndex < front.length := by
  intro entry hentry
  obtain ⟨before, found, after, hat⟩ := exists_entryAt hentry
  rw [direntIndex_of_entryAt hat.entry_eq, Nat.zero_add]
  by_contra hle
  -- otherwise the slots before the entry would have the end mark among them
  have hbefore : front <+: before := by
    refine @prefix_of_prefix_length_le _ _ _ slots' ?_ ?_ (Nat.le_of_not_lt hle)
    · exact ⟨_, hplace.slots_eq.symm⟩
    · exact ⟨_, hat.slots_eq.symm⟩
  rw [hat.front_not_isEnd slot (hbefore.subset hslot)] at hend
  cases hend

end Placed

/-! ## The law -/

/-- The scans report the file under its name as it was created, each piece carries the
checksum of the entry, and deletion of the file marks the row of its slots. -/
structure RoundTrip (slots : List Slot) (name : Name) (file : File) : Prop where
  name_eq : file.name = name
  found : findInDirectory slots name = some file
  got : ∃ index, getDirEntry slots index = some file
  listed : file ∈ listDirectory slots slots.length
  row : ∃ front row entry back, slots = front ++ row ++ entry :: back ∧
    row.length = file.lfnEntryCount ∧ (front ++ row).length = file.direntIndex ∧
    (∀ piece ∈ row, piece.isLfn = true ∧ piece 13 = shortNameChecksum entry.rawName) ∧
    ∃ marked, deleteEntryChain slots file = (true, front ++ marked ++ back) ∧
      marked.length = row.length + 1 ∧ ∀ slot ∈ marked, slot.isDeleted = true

lemma isDeleted_deletedSlot (isEntry : Bool) (slot : Slot) :
    (deletedSlot isEntry slot).isDeleted = true := by
  cases isEntry <;> rfl

lemma lfnEntryCount_le_iff {text : Name} (hne : text ≠ []) :
    lfnEntryCountForName text ≤ 19 ↔ text.length ≤ 247 := by
  rw [lfnEntryCountForName, if_neg hne]
  omega

/-- Deletion of the file that was created marks the row that was written for it. -/
lemma Placed.row {raw : List UInt8} {lfns : Nat} {front free back : List Slot}
    (hplace : Placed slots name attr cluster grow file slots' raw lfns front free back) :
    ∃ front row entry back, slots' = front ++ row ++ entry :: back ∧
      row.length = file.lfnEntryCount ∧ (front ++ row).length = file.direntIndex ∧
      (∀ piece ∈ row, piece.isLfn = true ∧ piece 13 = shortNameChecksum entry.rawName) ∧
      ∃ marked, deleteEntryChain slots' file = (true, front ++ marked ++ back) ∧
        marked.length = row.length + 1 ∧ ∀ slot ∈ marked, slot.isDeleted = true := by
  obtain ⟨base, ext, hparts⟩ := hplace.planned.raw_short
  set row := pieces name.text lfns (shortNameChecksum raw) lfns with hrow
  have hlen : row.length = lfns := by simp [hrow, pieces]
  have hslots : slots' = front ++ row ++ shortDirent raw attr cluster :: back := by
    rw [hplace.slots_eq]
    simp [entrySlots, hrow, pieces]
  have hcount : row.length = file.lfnEntryCount := by rw [hplace.file_eq, hlen]; rfl
  have hindex : file.direntIndex = (front ++ row).length := by
    rw [hplace.file_eq, length_append, hlen]
    rfl
  refine ⟨front, row, shortDirent raw attr cluster, back, hslots, hcount, hindex.symm, ?_,
    row.map (deletedSlot false) ++ [deletedSlot true (shortDirent raw attr cluster)], ?_, ?_, ?_⟩
  · intro piece hpiece
    obtain ⟨i, -, rfl⟩ := mem_map.mp hpiece
    rw [rawName_shortDirent hparts.length]
    exact ⟨rfl, rfl⟩
  · rw [hslots, deleteEntryChain_eq hindex hcount]
    simp
  · simp
  · simp only [mem_append, mem_map, mem_singleton]
    rintro slot (⟨piece, -, rfl⟩ | rfl)
    · exact isDeleted_deletedSlot false piece
    · exact isDeleted_deletedSlot true _

/-- An entry that is created with a long name is read back exactly if the name has at
most 247 characters and no end mark stands before the row of the entry. -/
theorem longName_roundTrip_iff (hneeds : nameNeedsLfn name.text = true)
    (hattr : attributes = 0 ∨ attributes = attrDirectory) (hcluster : cluster < 2 ^ 32)
    (hcreate : createNamed slots name attributes cluster grow = (some file, slots')) :
    RoundTrip slots' name.text file ↔ name.text.length ≤ 247 ∧
        PlacedBeforeEnd slots (lfnEntryCountForName name.text + 1) grow := by
  have hnil : name.text ≠ [] := by
    intro hnil
    rw [createNamed, if_pos (by simp [isRefusedName, hnil])] at hcreate
    cases congrArg Prod.fst hcreate
  obtain ⟨raw, lfnCount, front, free, back, hplace⟩ := exists_placed hcreate
  have hcount : lfnCount = lfnEntryCountForName name.text := by
    rw [hplace.planned.count_eq, if_pos hneeds]
  have hpos : 0 < lfnCount := by
    have hlen := length_pos_of_ne_nil hnil
    rw [hcount, lfnEntryCountForName, if_neg hnil]
    omega
  have hbeforeEnd : PlacedBeforeEnd slots (lfnEntryCountForName name.text + 1) grow ↔
      ∀ slot ∈ front, slot.isEnd = false := by
    rw [PlacedBeforeEnd, ← hcount, hplace.located]
    constructor
    · intro hall
      have hfront := hall front.length rfl
      rwa [hplace.front_eq] at hfront
    · rintro hfront start hstart
      obtain rfl := Option.some.inj hstart
      rwa [hplace.front_eq]
  rw [hbeforeEnd, ← lfnEntryCount_le_iff hnil, ← hcount]
  constructor
  · intro hround
    have hlist := hround.listed
    rw [listDirectory_eq, mem_map] at hlist
    obtain ⟨entry, hentry, hfile⟩ := hlist
    have hindex : entry.file.direntIndex = front.length + lfnCount := by
      rw [hfile, hplace.file_eq]
      rfl
    have hfront : ∀ slot ∈ front, slot.isEnd = false := by
      intro slot hslot
      by_contra hend
      have hlt := hplace.direntIndex_lt_of_isEnd hslot (by simpa using hend) entry hentry
      omega
    refine ⟨?_, hfront⟩
    -- both the entry that is listed and the one that is read lie in the same slot
    have hread :
        readEntry name.text raw lfnCount attributes cluster front.length ∈ entries slots' := by
      rw [hplace.entries_new hpos hattr hcluster hfront]
      exact mem_append_right _ mem_cons_self
    have hsame : entry = readEntry name.text raw lfnCount attributes cluster front.length :=
      Option.some.inj ((entryOf_eq_some_iff.mpr ⟨hentry, hindex⟩).symm.trans
        (entryOf_eq_some_iff.mpr ⟨hread, rfl⟩))
    by_contra hlong
    have hpieces := congrArg (fun entry => entry.file.lfnEntryCount) hsame
    simp only [hfile, hplace.file_eq, createdFile, readEntry,
      if_neg (fun h : 0 < lfnCount ∧ lfnCount ≤ 19 => hlong h.2)] at hpieces
    omega
  · rintro ⟨hshort, hfront⟩
    have hread :
        (readEntry name.text raw lfnCount attributes cluster front.length).file = file := by
      rw [hplace.file_eq, readEntry, createdFile, if_pos ⟨hpos, hshort⟩, if_pos ⟨hpos, hshort⟩,
        if_pos (Nat.ne_of_gt hpos)]
    have hents := hplace.entries_new hpos hattr hcluster hfront
    have hname : file.name = name.text := by
      rw [hplace.file_eq]
      exact if_pos (Nat.ne_of_gt hpos)
    refine ⟨hname, ?_, ⟨(entries front).length, ?_⟩, ?_, hplace.row⟩
    · have hmatch : (readEntry name.text raw lfnCount attributes cluster front.length).matches
          name.text = true := by
        rw [Entry.matches, hread, hname, sameName_refl]
        rfl
      have hbefore : (entries front).find? (fun entry => entry.matches name.text) = none := by
        simpa using hplace.front_unmatched hfront
      rw [findInDirectory_eq, hents, find?_append, hbefore, Option.none_or,
        find?_cons_of_pos (by exact hmatch), Option.map_some, hread]
    · rw [Geometry.getDirEntry_eq, hents, getElem?_append_right le_rfl, Nat.sub_self,
        getElem?_cons_zero, Option.map_some, hread]
    · rw [listDirectory_eq, hents, ← hread]
      exact mem_map_of_mem (mem_append_right _ mem_cons_self)

/-- The name of twelve letters makes the round trip in an empty directory. -/
theorem longName_roundTrip :
    ∃ file slots', createNamed (EmptyDir.root 16).slots longName 0 0 none = (some file, slots') ∧
      RoundTrip slots' longName.text file := by
  obtain ⟨file, hfile⟩ :
      ∃ file, (createNamed (EmptyDir.root 16).slots longName 0 0 none).1 = some file :=
    Option.isSome_iff_exists.mp (by decide +kernel)
  have hcreate : createNamed (EmptyDir.root 16).slots longName 0 0 none =
      (some file, (createNamed (EmptyDir.root 16).slots longName 0 0 none).2) := by
    rw [← hfile]
  refine ⟨file, _, hcreate, ?_⟩
  refine (longName_roundTrip_iff (by decide +kernel) (.inl rfl) (by decide) hcreate).mpr
    ⟨by decide +kernel, ?_⟩
  intro start hstart slot hslot
  have hzero : locateFreeDirentSpan (grown (EmptyDir.root 16).slots none)
      (lfnEntryCountForName longName.text + 1) = some 0 := by decide +kernel
  obtain rfl := Option.some.inj (hzero.symm.trans hstart)
  exact absurd hslot not_mem_nil

/-- A name of 248 characters is created in an empty directory, its entry is listed with
another name and without pieces, and deletion of what is listed leaves the pieces. -/
theorem twentyPieces_lost :
    ∃ file slots', createNamed (EmptyDir.root 32).slots twentyPieces 0 0 none =
      (some file, slots') ∧
      ¬ RoundTrip slots' twentyPieces.text file ∧
      (listDirectory slots' 32).map (fun listed => (listed.lfnEntryCount, listed.direntIndex)) =
        [(0, 20)] := by
  obtain ⟨file, hfile⟩ :
      ∃ file, (createNamed (EmptyDir.root 32).slots twentyPieces 0 0 none).1 = some file :=
    Option.isSome_iff_exists.mp (by decide +kernel)
  have hcreate : createNamed (EmptyDir.root 32).slots twentyPieces 0 0 none =
      (some file, (createNamed (EmptyDir.root 32).slots twentyPieces 0 0 none).2) := by
    rw [← hfile]
  refine ⟨file, _, hcreate, fun hround => ?_, by decide +kernel⟩
  have hnone : findInDirectory (createNamed (EmptyDir.root 32).slots twentyPieces 0 0 none).2
      twentyPieces.text = none := by decide +kernel
  exact absurd (hnone.symm.trans hround.found) nofun

end NexOS.Fat32
