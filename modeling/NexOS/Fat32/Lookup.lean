import NexOS.Fat32.Tidy

/-! # Names in a directory

Entries are added and removed, and the directory grows when there is no room. Every
name is answered to by one entry at most. A new entry is found under its name unless
the name is lost on the way to the slots: a dot at its end is not stored with a short
name, and of a long name of more than 247 characters nothing is read back.
-/

namespace NexOS.Fat32

open List Option

/-! ## Calls on a directory -/

/-- A text that can be the last segment of a path. -/
structure EntryName where
  text : Name
  nonzero : ∀ ch ∈ text, ch ≠ 0
  length_le : text.length ≤ 255

/-- `fat32_create_entry_in_directory`. If there is no room, `grow` is the number of
slots that appending a cluster adds, or `none` if that fails. -/
def createEntryInDirectory (slots : List Slot) (name : Name) (attributes : UInt8) (cluster : Nat)
    (grow : Option Nat) : Option File × List Slot :=
  match planEntry slots name with
  | none => (none, slots)
  | some (raw, lfnCount) =>
    let place := fun (slots : List Slot) (start : Nat) =>
      (some (createdFile name raw lfnCount attributes cluster start),
        writeSlots slots start (entrySlots name raw lfnCount attributes cluster))
    match locateFreeDirentSpan slots (lfnCount + 1) with
    | some start => place slots start
    | none =>
      match grow with
      | none => (none, slots)
      | some count =>
        let slots := slots ++ List.replicate count Slot.zero
        match locateFreeDirentSpan slots (lfnCount + 1) with
        | some start => place slots start
        | none => (none, slots)

/-- Creation of files and directories refuses the empty name and the dot names. -/
def isRefusedName (name : Name) : Bool := name = [] ∨ isDotName name

/-- A new file has no cluster, a new directory has the one it was given. -/
inductive DirCall where
  | create (name : EntryName) (grow : Option Nat)
  | mkdir (name : EntryName) (cluster : UInt32) (grow : Option Nat)
  | remove (name : EntryName) (permitted : Bool)

/-- Creation of an entry after the checks on its name. -/
def createNamed (slots : List Slot) (name : EntryName) (attributes : UInt8) (cluster : Nat)
    (grow : Option Nat) : Option File × List Slot :=
  if isRefusedName name.text then (none, slots)
  else createEntryInDirectory slots name.text attributes cluster grow

/-- Removal finds the entry and deletes it, if it is of the right kind and, for a
directory, empty. -/
def removeNamed (slots : List Slot) (name : EntryName) (permitted : Bool) : List Slot :=
  match findInDirectory slots name.text with
  | none => slots
  | some file => if permitted then (deleteEntryChain slots file).2 else slots

def DirCall.name : DirCall → EntryName
  | .create name _ => name
  | .mkdir name _ _ => name
  | .remove name _ => name

/-- The entry that a call created, if any, and the slots after it. -/
def callDir (slots : List Slot) : DirCall → Option File × List Slot
  | .create name grow => createNamed slots name 0 0 grow
  | .mkdir name cluster grow => createNamed slots name attrDirectory cluster.toNat grow
  | .remove name permitted => (none, removeNamed slots name permitted)

/-- The slots after a call. -/
def performDir (slots : List Slot) (call : DirCall) : List Slot := (callDir slots call).2

/-- The slots after a list of calls. -/
def runDir (slots : List Slot) (calls : List DirCall) : List Slot := calls.foldl performDir slots

/-- A directory without entries: that of a new volume, or one that was made and has its
dot entries. -/
inductive EmptyDir where
  | root (count : Nat)
  | made (self parent : UInt32) (count : Nat)

/-- The slots of a directory as it is made. -/
def EmptyDir.slots : EmptyDir → List Slot
  | .root count => List.replicate count Slot.zero
  | .made self parent count =>
    shortDirent (pad 11 [dot]) attrDirectory self.toNat ::
      shortDirent (pad 11 [dot, dot]) attrDirectory parent.toNat :: List.replicate count Slot.zero

/-! ## Creation -/

variable {text : Name} {slots : List Slot}

section Creation

variable {slots : List Slot} {name : EntryName} {attr : UInt8} {cluster : Nat}
  {grow : Option Nat}
variable {raw : List UInt8} {lfns : Nat} {result : Option File × List Slot}

lemma writeSlots_span {front free back new : List Slot} (hspan : FreeSpan slots front free back)
    (hlen : new.length = free.length) :
    writeSlots slots front.length new = front ++ (new ++ back) := by
  rw [writeSlots, hspan.slots_eq, take_left, hlen, append_assoc]
  congr 2
  rw [← length_append, ← append_assoc, drop_left]

lemma length_entrySlots : (entrySlots text raw lfns attr cluster).length = lfns + 1 := by
  simp [entrySlots]

/-- A call that creates an entry fails and at most grows the directory, or places the
entry in a free row of the directory as it was or as it has grown. -/
inductive CreateResult (slots : List Slot) (name : EntryName) (attributes : UInt8) (cluster : Nat) :
    Option File × List Slot → Prop
  | failed (zeros : List Slot) (hzeros : ∀ slot ∈ zeros, slot.isEnd = true) :
      CreateResult slots name attributes cluster (none, slots ++ zeros)
  | placed (hname : isRefusedName name.text = false)
      (zeros : List Slot) (hzeros : ∀ slot ∈ zeros, slot.isEnd = true)
      (raw : List UInt8) (lfnCount : Nat) (hplan : planEntry slots name.text = some (raw, lfnCount))
      (front free back : List Slot) (hspan : FreeSpan (slots ++ zeros) front free back)
      (hlength : free.length = lfnCount + 1) :
      CreateResult slots name attributes cluster
        (some (createdFile name.text raw lfnCount attributes cluster front.length),
          front ++ (entrySlots name.text raw lfnCount attributes cluster ++ back))

lemma createResult_of_locate {start : Nat} {zeros : List Slot}
    (hname : isRefusedName name.text = false) (hzeros : ∀ slot ∈ zeros, slot.isEnd = true)
    (hplan : planEntry slots name.text = some (raw, lfns))
    (hloc : locateFreeDirentSpan (slots ++ zeros) (lfns + 1) = some start) :
    CreateResult slots name attr cluster (some (createdFile name.text raw lfns attr cluster start),
        writeSlots (slots ++ zeros) start (entrySlots name.text raw lfns attr cluster)) := by
  obtain ⟨front, free, back, hspan, rfl, hlen⟩ := exists_freeSpan (Nat.succ_pos lfns) hloc
  rw [writeSlots_span hspan (by rw [length_entrySlots, hlen])]
  exact .placed hname zeros hzeros raw lfns hplan front free back hspan hlen

lemma createResult_createNamed :
    CreateResult slots name attr cluster (createNamed slots name attr cluster grow) := by
  have hsame : CreateResult slots name attr cluster (none, slots) := by
    simpa using @CreateResult.failed slots name attr cluster [] nofun
  unfold createNamed
  cases hname : isRefusedName name.text with
  | true => exact hsame
  | false =>
  unfold createEntryInDirectory
  rcases hplan : planEntry slots name.text with _ | plan
  · exact hsame
  obtain ⟨raw, lfns⟩ := plan
  dsimp only
  cases hloc : locateFreeDirentSpan slots (lfns + 1) with
  | some start =>
    have hplace := @createResult_of_locate slots name attr cluster raw lfns start []
      hname nofun hplan (by simpa using hloc)
    simpa using hplace
  | none =>
    rcases grow with _ | count
    · exact hsame
    dsimp only
    cases hgrown : locateFreeDirentSpan (slots ++ List.replicate count Slot.zero)
        (lfns + 1) with
    | some start => exact createResult_of_locate hname (replicate_zero_isEnd count) hplan hgrown
    | none => exact .failed _ (replicate_zero_isEnd count)

lemma CreateResult.tidy (hres : CreateResult slots name attr cluster result) (htidy : Tidy slots)
    (hattr : attr = 0 ∨ attr = attrDirectory) (hclus : cluster < 2 ^ 32) :
    Tidy result.2 := by
  cases hres with
  | failed zeros hzeros => exact htidy.grow hzeros
  | placed hname zeros hzeros raw lfns hplan front free back hspan hlen =>
    have hplanned := (planned_of_planEntry hplan).congr (entriesFrom_append_isEnd hzeros {} 0)
    exact (htidy.grow hzeros).insert hspan hlen hplanned name.nonzero hattr hclus

/-- The name of a new entry is still there when the entry is looked up. -/
def Findable (name : Name) : Prop :=
  name.length ≤ 247 ∧ ¬ (nameNeedsLfn name = false ∧ name.getLast? = some dot)

instance (name : Name) : Decidable (Findable name) := by unfold Findable; infer_instance

lemma length_le_of_fits (hfits : nameFitsShortExact text = true) : text.length ≤ 12 := by
  obtain ⟨base, tail, hparts⟩ := nameFitsShortExact_iff.mp hfits
  have hbase := hparts.base_le
  rw [hparts.name_eq]
  rcases hparts.tail_eq with rfl | ⟨ext, rfl, hext, -⟩ <;> simp <;> omega

/-- A name that is stored as a short name is answered to unless it ends in a dot. -/
lemma sameName_alias_iff (hplan : Planned slots text raw lfns)
    (hfits : nameFitsShortExact text = true) :
    sameName (formatName83 raw) text = true ↔ text.getLast? ≠ some dot := by
  obtain ⟨base, ext, hparts⟩ := hplan.raw_short
  rw [sameName_comm]
  constructor
  · intro hsame
    obtain ⟨-, hnormal⟩ := normalize_of_sameName_format hparts hsame
    rw [← hnormal] at hsame
    exact (sameName_format_normalize hfits).mp hsame
  · intro hlast
    rw [hplan.exact hfits hlast]
    exact (sameName_format_normalize hfits).mpr hlast

lemma fits_of_not_needsLfn (hneeds : nameNeedsLfn text = false) :
    nameFitsShortExact text = true := by
  by_contra hfits
  simp [nameNeedsLfn, hfits] at hneeds

/-- The entry that is read from the new slots is the one reported, and answers to its
name, for the names that are findable. -/
lemma readEntry_eq_iff (hplan : Planned slots text raw lfns) (hne : text ≠ []) (start : Nat) :
    ((readEntry text raw lfns attr cluster start).matches text = true ∧
      (readEntry text raw lfns attr cluster start).file =
        createdFile text raw lfns attr cluster start) ↔ Findable text := by
  have hcount := hplan.count_eq
  cases hneeds : nameNeedsLfn text with
  | false =>
    -- no long name is stored
    have hfits := fits_of_not_needsLfn hneeds
    have hshort := length_le_of_fits hfits
    obtain rfl : lfns = 0 := by simpa [hneeds] using hcount
    have hfindable : Findable text ↔ text.getLast? ≠ some dot := by
      simp only [Findable, hneeds, true_and, and_iff_right_iff_imp]
      omega
    rw [hfindable, ← sameName_alias_iff hplan hfits]
    simp [readEntry, createdFile, Entry.matches]
  | true =>
    have hcount' : lfns = (text.length + 12) / 13 := by
      simpa [hneeds, lfnEntryCountForName, hne] using hcount
    have hpos : 0 < text.length := length_pos_iff.mpr hne
    have hfindable : Findable text ↔ lfns ≤ 19 := by
      simp only [Findable, hneeds, Bool.true_eq_false, false_and, not_false_eq_true, and_true]
      omega
    rw [hfindable]
    by_cases hlong : lfns ≤ 19
    · simp [readEntry, createdFile, Entry.matches, hlong, sameName_refl,
        show 0 < lfns ∧ lfns ≠ 0 by omega]
    · simp [readEntry, createdFile]
      omega

lemma CreateResult.find_iff {file : File}
    (hres : CreateResult slots name attr cluster result) (htidy : Tidy slots)
    (hattr : attr = 0 ∨ attr = attrDirectory) (hclus : cluster < 2 ^ 32)
    (hfile : result.1 = some file) :
    findInDirectory result.2 name.text = some file ↔ Findable name.text := by
  cases hres with
  | failed zeros hzeros => exact absurd hfile (some_ne_none file).symm
  | placed hname zeros hzeros raw lfns hplan front free back hspan hlen =>
    have hplanned := (planned_of_planEntry hplan).congr (entriesFrom_append_isEnd hzeros {} 0)
    have hgrown := htidy.grow hzeros
    have hne : free ≠ [] := ne_nil_of_length_eq_add_one hlen
    have hnonempty : name.text ≠ [] := by
      intro hnil
      simp [isRefusedName, hnil] at hname
    rw [← hfile, ← readEntry_eq_iff hplanned hnonempty front.length, findInDirectory_eq,
      hspan.entries_new hgrown.ended hplanned name.nonzero hattr hclus (hspan.not_ready hgrown hne)]
    -- no other entry answers to the name
    have hunm := hplanned.unmatched
    rw [hspan.entries_eq hgrown.ended hne, hlen] at hunm
    have hfront : (entries front).find? (fun entry => entry.matches name.text) = none :=
      find?_eq_none.mpr fun entry hentry => by
        simp [hunm entry (mem_append_left _ hentry)]
    have hback : (entriesFrom {} (front.length + (lfns + 1)) back).find?
        (fun entry => entry.matches name.text) = none :=
      find?_eq_none.mpr fun entry hentry => by
        simp [hunm entry (mem_append_right _ hentry)]
    rw [find?_append, hfront, find?_cons]
    cases hmatch : (readEntry name.text raw lfns attr cluster front.length).matches
        name.text with
    | true => simp
    | false => simp [hback]

end Creation

/-! ## Runs -/

lemma Tidy.removeNamed (htidy : Tidy slots) (name : EntryName) (permitted : Bool) :
    Tidy (removeNamed slots name permitted) := by
  unfold NexOS.Fat32.removeNamed
  rcases hfind : findInDirectory slots name.text with _ | file
  · exact htidy
  rcases permitted with _ | _
  · exact htidy
  rw [findInDirectory_eq, map_eq_some_iff] at hfind
  obtain ⟨entry, hfound, rfl⟩ := hfind
  obtain ⟨front, slot, back, hat⟩ := exists_entryAt (mem_of_find?_eq_some hfound)
  obtain ⟨before, row, hfront, hcount, hindex, hrow⟩ := hat.exists_row
  have hrem := htidy.remove hat hfront hcount hrow
  dsimp only
  rw [hat.slots_eq, hfront, deleteEntryChain_eq (by rw [hindex, hfront, Nat.zero_add]) hcount]
  exact hrem

lemma Tidy.performDir (htidy : Tidy slots) (call : DirCall) : Tidy (performDir slots call) := by
  cases call with
  | create name grow =>
    exact createResult_createNamed.tidy htidy (.inl rfl) (Nat.two_pow_pos 32)
  | mkdir name cluster grow =>
    exact createResult_createNamed.tidy htidy (.inr rfl) cluster.toNat_lt
  | remove name permitted => exact htidy.removeNamed name permitted

lemma Tidy.runDir (htidy : Tidy slots) (calls : List DirCall) : Tidy (runDir slots calls) := by
  induction calls generalizing slots with
  | nil => exact htidy
  | cons call calls ih => exact ih (htidy.performDir call)

lemma tidy_nil : Tidy [] where
  ended := by
    intro front slot back heq
    simp at heq
  followed := trivial
  notReady := not_ready_default
  names := ⟨nofun, List.Pairwise.nil⟩

/-- The entry of the directory itself or of its parent. -/
structure IsDotEntry (text : Name) (entry : Entry) : Prop where
  raw_eq : entry.raw = pad 11 text
  format : formatName83 entry.raw = text
  name_eq : entry.file.name = text

lemma IsDotEntry.wellNamed {entry : Entry} (hentry : IsDotEntry text entry)
    (hdot : isDotName text = true) : WellNamed entry := by
  obtain ⟨-, hraw, hname⟩ := hentry
  refine ⟨.inr ⟨hraw ▸ hdot, hname.trans hraw.symm⟩, fun hfits => ?_⟩
  rw [hname, not_fits_of_isDotName hdot] at hfits
  exact Bool.noConfusion hfits

lemma IsDotEntry.matches_iff {name : Name} {entry : Entry} (hentry : IsDotEntry text entry) :
    entry.matches name = true ↔ sameName text name = true := by
  rw [Entry.matches, hentry.format, hentry.name_eq, Bool.or_self]

lemma exists_dotEntry (hdot : isDotName text = true) (cluster index : Nat) (rest : List Slot) :
    ∃ entry, IsDotEntry text entry ∧
      entriesFrom {} index (shortDirent (pad 11 text) attrDirectory cluster :: rest) =
        entry :: entriesFrom {} (index + 1) rest := by
  rw [isDotName, decide_eq_true_eq] at hdot
  have hslot : (shortDirent (pad 11 text) attrDirectory cluster).isEntry = true ∧
      (pad 11 text).length = 11 ∧ formatName83 (pad 11 text) = text := by
    rcases hdot with rfl | rfl
    · exact ⟨isEntry_shortDirent_of_first rfl (by decide) (by decide) (.inr rfl), rfl, rfl⟩
    · exact ⟨isEntry_shortDirent_of_first rfl (by decide) (by decide) (.inr rfl), rfl, rfl⟩
  obtain ⟨hentry, hlen, hformat⟩ := hslot
  obtain ⟨hend, -, hlfn, -⟩ := Slot.isEntry_iff.mp hentry
  rw [entriesFrom, if_neg (by simp [hend]), entryAt, fillFile_of_isEntry hentry,
    stepState_of_not_isLfn hlfn, rawName_shortDirent hlen]
  refine ⟨_, ⟨rfl, hformat, ?_⟩, rfl⟩
  rw [if_neg fun hlong => not_ready_default hlong.1, hformat]

lemma tidy_dots (self parent : Nat) : Tidy [shortDirent (pad 11 [dot]) attrDirectory self,
      shortDirent (pad 11 [dot, dot]) attrDirectory parent] where
  ended := by
    rw [← append_nil [_, _]]
    apply Ended.append _ tidy_nil.ended
    simp only [mem_cons, not_mem_nil, or_false]
    rintro slot (rfl | rfl) <;> rfl
  followed := ⟨fun hready => absurd hready not_ready_default,
    fun hready => absurd hready not_ready_default, trivial⟩
  notReady := not_ready_default
  names := by
    obtain ⟨first, hfirst, hents⟩ := @exists_dotEntry [dot] rfl self 0
      [shortDirent (pad 11 [dot, dot]) attrDirectory parent]
    obtain ⟨second, hsnd, hrest⟩ := @exists_dotEntry [dot, dot] rfl parent 1 []
    rw [entries, hents, hrest]
    constructor
    case named =>
      simp only [entriesFrom, mem_cons, not_mem_nil, or_false]
      rintro entry (rfl | rfl)
      · exact hfirst.wellNamed rfl
      · exact hsnd.wellNamed rfl
    case apart =>
      simp only [entriesFrom, pairwise_cons, mem_singleton]
      refine ⟨?_, forall_mem_nil _, List.Pairwise.nil⟩
      rintro entry rfl name ⟨hone, htwo⟩
      rw [hfirst.matches_iff] at hone
      rw [hsnd.matches_iff, sameName_comm] at htwo
      exact absurd (sameName_trans hone htwo) (by decide)

lemma EmptyDir.tidy (empty : EmptyDir) : Tidy empty.slots := by
  cases empty with
  | root count => exact tidy_nil.grow (replicate_zero_isEnd count)
  | made self parent count =>
    exact (tidy_dots self.toNat parent.toNat).grow (replicate_zero_isEnd count)

lemma length_le_one_of_apart {matching : List Entry} {name : Name}
    (hapart : matching.Pairwise Apart) (hmatch : ∀ entry ∈ matching, entry.matches name = true) :
    matching.length ≤ 1 := by
  match matching with
  | [] => exact Nat.zero_le 1
  | [_] => exact le_rfl
  | first :: second :: rest =>
    have hboth := rel_of_pairwise_cons hapart mem_cons_self
    exact absurd ⟨hmatch first (by simp), hmatch second (by simp)⟩ (hboth name)

lemma Tidy.length_matching_le (htidy : Tidy slots) (name : Name) :
    ((entries slots).filter fun entry => entry.matches name).length ≤ 1 :=
  length_le_one_of_apart (htidy.names.apart.filter _) fun _ hentry => (mem_filter.mp hentry).2

/-- In every directory that is reached from an empty one a name is answered to by at
most one entry, and an entry that is created is found under its name exactly if the
name is findable. -/
theorem lookup_unambiguous (empty : EmptyDir) (calls : List DirCall) :
    (∀ name,
      ((entries (runDir empty.slots calls)).filter fun entry => entry.matches name).length ≤ 1) ∧
      ∀ call file, (callDir (runDir empty.slots calls) call).1 = some file →
        (findInDirectory (performDir (runDir empty.slots calls) call) call.name.text = some file ↔
          Findable call.name.text) := by
  have htidy := empty.tidy.runDir calls
  refine ⟨htidy.length_matching_le, fun call file hcreated => ?_⟩
  cases call with
  | create name grow =>
    exact createResult_createNamed.find_iff htidy (.inl rfl) (Nat.two_pow_pos 32) hcreated
  | mkdir name cluster grow =>
    exact createResult_createNamed.find_iff htidy (.inr rfl) cluster.toNat_lt hcreated
  | remove name permitted => exact absurd hcreated (some_ne_none file).symm

/-- A name that needs a long entry. -/
def longName : EntryName := ⟨"nameoflength".toUTF8.toList, by decide +kernel, by decide +kernel⟩

/-- The alias that the long name has in an empty directory. -/
def aliasName : EntryName := ⟨"NAMEOF~0".toUTF8.toList, by decide +kernel, by decide +kernel⟩

/-- The long name is found in a directory where its alias was taken. -/
theorem lookup_unambiguous_alias :
    ∃ file, (callDir (runDir (EmptyDir.root 16).slots [.create aliasName none])
        (.create longName none)).1 = some file ∧
      findInDirectory (performDir (runDir (EmptyDir.root 16).slots [.create aliasName none])
        (.create longName none)) longName.text = some file := by
  obtain ⟨file, hfile⟩ : ∃ file, (callDir (runDir (EmptyDir.root 16).slots [.create aliasName none])
      (.create longName none)).1 = some file := isSome_iff_exists.mp (by decide +kernel)
  exact ⟨file, hfile, ((lookup_unambiguous _ _).2 _ _ hfile).mpr (by decide +kernel)⟩

/-- A name that ends with a dot. -/
def dottedName : EntryName := ⟨[0x41, dot], by decide +kernel, by decide +kernel⟩

/-- A name of twenty pieces. -/
def twentyPieces : EntryName := ⟨List.replicate 248 0x61, by decide +kernel, by decide +kernel⟩

/-- Entries with these names are created and then not found. -/
theorem created_not_found :
    ((callDir (EmptyDir.root 16).slots (.create dottedName none)).1.isSome = true ∧
      findInDirectory
        (performDir (EmptyDir.root 16).slots (.create dottedName none)) dottedName.text = none) ∧
    ((callDir (EmptyDir.root 32).slots (.create twentyPieces none)).1.isSome = true ∧
      findInDirectory (performDir (EmptyDir.root 32).slots (.create twentyPieces none))
        twentyPieces.text = none) := by
  decide +kernel

end NexOS.Fat32
