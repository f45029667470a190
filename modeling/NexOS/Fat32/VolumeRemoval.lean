import NexOS.Fat32.VolumeCreation
import NexOS.Fat32.VolumePaths

/-! # Removal from a volume

Removal frees the chain of an entry first and then looks up the parent directory again to
delete the entry. Freeing the chain of a file or of an empty directory does not touch the
directories on the path, so the entry is found where it was. If it is deleted, its chain is
freed together with its holder.
-/

namespace NexOS.Fat32.Geometry

open List Option ChainTable

variable {g : Geometry} {d d' : Disk} {aside : Option Nat} {current dir node : Node}
  {entry : Entry} {segments : List Name}
variable {path : NormalPath} {cells : List Nat}

/-! ## Directories on a path -/

/-- The first cluster of a directory; that of the root is not 0. -/
def Node.start (g : Geometry) (dir : Node) : Nat := g.dirFirstCluster dir.file.firstCluster

variable (hfinds : Finds g d dir node entry)

include hfinds

lemma Finds.entryOf_start :
    entryOf (g.dirSlots d (dir.start g)) entry.file.direntIndex = some entry := by
  rw [Node.start, dirSlots_norm]
  exact hfinds.entryOf_eq

/-- What a directory lists for an entry that was found. -/
lemma Finds.listings_eq : g.listings d (dir.start g) entry.file.direntIndex =
      if g.clusterIsData node.file.firstCluster then
        some ⟨node.file.isDir, node.file.firstCluster⟩ else none := by
  rw [listings, hfinds.entryOf_start, bind_some, held, hfinds.file_eq]
  simp [hfinds.notDot]

lemma Finds.isDir_start (hdir : g.IsDir d (dir.start g))
    (hnode : node.file.isDir = true) : g.IsDir d (node.start g) := by
  unfold Node.start dirFirstCluster
  split
  next hdata =>
    have hlist := hfinds.listings_eq
    rw [if_pos hdata, hnode] at hlist
    exact .enter hdir hlist
  · exact .root

omit hfinds

lemma isDir_getRootDir : g.IsDir d (g.getRootDir.start g) := by
  rw [Node.start, getRootDir, dirFirstCluster_of_isData clusterIsData_root]
  exact .root

lemma isDir_of_findSegments (hprop : ∀ segment ∈ segments, ProperSegment segment)
    (hdir : g.IsDir d (current.start g)) (hfound : g.findSegments d current segments = some node)
    (hnode : node.file.isDir = true) : g.IsDir d (node.start g) := by
  induction segments generalizing current with
  | nil =>
    obtain rfl := Option.some.inj hfound
    exact hdir
  | cons segment rest ih =>
    rw [forall_mem_cons] at hprop
    obtain ⟨-, found, hin, hrest⟩ := findSegments_cons_iff.mp hfound
    obtain ⟨entry, hfinds⟩ := exists_finds hprop.1.notDot hin
    split at hrest
    · subst hrest
      exact hfinds.isDir_start hdir hnode
    · exact ih hprop.2 (hfinds.isDir_start hdir hrest.1) hrest.2

lemma isDir_of_findParent (hfound : g.findParent d path.parentText = some dir) :
    g.IsDir d (dir.start g) ∧ dir.file.isDir = true := by
  unfold findParent at hfound
  split at hfound
  · obtain rfl := Option.some.inj hfound
    exact ⟨isDir_getRootDir, by simp [getRootDir, File.isDir, attrDirectory]⟩
  rw [NormalPath.parentText, findPath_join path.parents_proper] at hfound
  rcases hsegs : g.findSegments d g.getRootDir path.parents with _ | found
  · simp [hsegs] at hfound
  rw [hsegs] at hfound
  simp only [ite_none_left_eq_some, Bool.not_eq_false, Option.some.injEq] at hfound
  obtain ⟨hisDir, rfl⟩ := hfound
  exact ⟨isDir_of_findSegments path.parents_proper isDir_getRootDir hsegs hisDir, hisDir⟩

/-! ## Lookups that are repeated -/

/-- A directory with an entry keeps its slots. -/
def KeepsUsedDirs (g : Geometry) (disk disk' : Disk) : Prop :=
  ∀ dir, g.IsDir disk dir → (∃ entry ∈ entries (g.dirSlots disk dir), entry.isDot = false) →
    g.dirSlots disk' dir = g.dirSlots disk dir ∧ g.dirClusters disk' dir = g.dirClusters disk dir

variable (hkeeps : KeepsUsedDirs g d d')

include hkeeps

lemma KeepsUsedDirs.findIn {name : Name}
    (hdir : g.IsDir d (dir.start g)) (hname : isDotName name = false)
    (hfound : g.findIn d dir name = some node) : g.findIn d' dir name = some node := by
  obtain ⟨entry, hfinds⟩ := exists_finds hname hfound
  have hmem := hfinds.mem
  rw [← dirSlots_norm] at hmem
  obtain ⟨hslots, hcluss⟩ := hkeeps _ hdir ⟨entry, hmem, hfinds.notDot⟩
  rw [Node.start, dirSlots_norm, dirSlots_norm] at hslots
  rw [Node.start, dirClusters_norm, dirClusters_norm] at hcluss
  rw [Geometry.findIn, hslots]
  unfold Geometry.findIn at hfound
  simpa only [rawEntryPosition, hcluss] using hfound

lemma KeepsUsedDirs.findSegments
    (hprop : ∀ segment ∈ segments, ProperSegment segment) (hdir : g.IsDir d (current.start g))
    (hfound : g.findSegments d current segments = some node) :
    g.findSegments d' current segments = some node := by
  induction segments generalizing current with
  | nil => exact hfound
  | cons segment rest ih =>
    rw [forall_mem_cons] at hprop
    obtain ⟨hlen, found, hin, hrest⟩ := findSegments_cons_iff.mp hfound
    obtain ⟨entry, hfinds⟩ := exists_finds hprop.1.notDot hin
    refine findSegments_cons_iff.mpr ⟨hlen, found, hkeeps.findIn hdir hprop.1.notDot hin, ?_⟩
    split at hrest
    next hnil => rwa [if_pos hnil]
    next hne =>
      rw [if_neg hne]
      exact ⟨hrest.1, ih hprop.2 (hfinds.isDir_start hdir hrest.1) hrest.2⟩

lemma KeepsUsedDirs.findParent (hfound : g.findParent d path.parentText = some dir) :
    g.findParent d' path.parentText = some dir := by
  rw [Geometry.findParent, NormalPath.parentText, findPath_join path.parents_proper] at hfound ⊢
  split at hfound
  next hnil => rwa [if_pos hnil]
  next hne =>
    rw [if_neg hne]
    rcases hsegs : g.findSegments d g.getRootDir path.parents with _ | found
    · simp [hsegs] at hfound
    rw [hsegs] at hfound
    rw [hkeeps.findSegments path.parents_proper isDir_getRootDir hsegs]
    exact hfound

omit hkeeps

/-! ## Deletion of an entry -/

lemma deleteEntry_spec (hchain : Chain (g.link d) (dir.start g) cells)
    (hmem : entry ∈ entries (g.dirSlots d (dir.start g))) (hfile : node.file = entry.file) :
    Rewrites d cells (g.deleteEntry d dir node).2 ∧
      ∀ other, entryOf (g.dirSlots (g.deleteEntry d dir node).2 (dir.start g)) other =
        if other = entry.file.direntIndex then none
        else entryOf (g.dirSlots d (dir.start g)) other := by
  obtain ⟨hrew, -, hslots⟩ := deleteDirents_spec hchain true entry.file.direntIndex
    (entry.file.lfnEntryCount + 1)
  rw [deleteEntry, hfile, ← deleteDirents_norm, ← Node.start]
  refine ⟨hrew, ?_⟩
  obtain ⟨front, slot, back, hat⟩ := exists_entryAt hmem
  obtain ⟨before, row, hfront, hcount, hindex, hrow⟩ := hat.exists_row
  have hrem := hat.entryOf_removed hfront hrow
  rw [hslots]
  have hdel := @deleteEntryChain_eq slot before row back entry.file
    (by rw [hindex, hfront, Nat.zero_add]) hcount
  rw [deleteEntryChain, ← hfront, ← hat.slots_eq] at hdel
  rw [hdel]
  exact hrem

/-- The parent directory of a path, and the entry that the path leads to. -/
lemma exists_finds_of_findPath (hfound : g.findPath d path.text = some node) :
    ∃ dir entry, g.findParent d path.parentText = some dir ∧ g.IsDir d (dir.start g) ∧
      Finds g d dir node entry ∧ path.name.length < nameBufferSize := by
  obtain ⟨dir, hpar, hin, hlen⟩ := exists_parent_of_findPath hfound
  obtain ⟨entry, hfinds⟩ := exists_finds path.name_proper.notDot hin
  exact ⟨dir, entry, hpar, (isDir_of_findParent hpar).1, hfinds, hlen⟩

/-- Deletion looks up the parent directory again. -/
lemma KeepsUsedDirs.deletePath_eq (hkeeps : KeepsUsedDirs g d d')
    (hpar : g.findParent d path.parentText = some dir)
    (hlen : path.parentText.length < pathBufferSize)
    (hname : path.name.length < nameBufferSize) :
    g.deletePath d' path.text node = g.deleteEntry d' dir node := by
  rw [deletePath, splitParentChildPath_text, if_neg (by omega)]
  dsimp only
  rw [hkeeps.findParent hpar]

lemma keepsUsedDirs_refl : KeepsUsedDirs g d d := fun _ _ _ => ⟨rfl, rfl⟩

/-- Freeing a chain that does not meet those of used directories keeps them. -/
lemma Sound.keepsUsedDirs (hsound : g.Sound d aside) (hfrees : Frees g d cells d')
    (hapart : ∀ dir others, g.IsDir d dir →
      (∃ entry ∈ entries (g.dirSlots d dir), entry.isDot = false) →
      Chain (g.link d) dir others → cells.Disjoint others) : KeepsUsedDirs g d d' := by
  intro dir hdir hused
  obtain ⟨others, hothers⟩ := hsound.exists_chain hdir
  have hchain : Chain (g.link d') dir others := hothers.congr fun c hc =>
    hfrees.link_same c fun hmem => hapart dir others hdir hused hothers hmem hc
  refine ⟨dirSlots_congr hothers hchain fun c _ => by rw [hfrees.data_eq], ?_⟩
  rw [dirClusters_of_chain hothers, dirClusters_of_chain hchain]

/-- The chain of an entry is freed and the entry is deleted. -/
lemma Sound.release {mid : Disk} (hsound : g.Sound d none)
    (hdir : g.IsDir d (dir.start g)) (hfinds : Finds g d dir node entry)
    (hdata : g.clusterIsData node.file.firstCluster = true)
    (hchain : Chain (g.link d) node.file.firstCluster cells)
    (hfrees : Frees g d cells mid) (hapart : ∀ dir others, g.IsDir d dir →
      (node.file.isDir = true → dir ≠ node.file.firstCluster) →
      Chain (g.link d) dir others → cells.Disjoint others)
    (hne : node.file.isDir = true → dir.start g ≠ node.file.firstCluster)
    (hempty : node.file.isDir = true → ∀ index, g.listings d node.file.firstCluster index = none) :
    g.Consistent (g.deleteEntry mid dir node).2 := by
  have hlist := hfinds.listings_eq
  rw [if_pos hdata] at hlist
  -- the directories that stay have their chains and slots after the chain was freed
  have hkept : ∀ other others, g.IsDir d other →
      (node.file.isDir = true → other ≠ node.file.firstCluster) → Chain (g.link d) other others →
      Chain (g.link mid) other others ∧ g.dirSlots mid other = g.dirSlots d other := by
    intro other others hother hotherNe hothers
    have hchain' : Chain (g.link mid) other others := hothers.congr fun c hc =>
      hfrees.link_same c fun hmem => hapart other others hother hotherNe hothers hmem hc
    exact ⟨hchain', dirSlots_congr hothers hchain' fun c _ => by rw [hfrees.data_eq]⟩
  obtain ⟨parents, hpars⟩ := hsound.exists_chain hdir
  obtain ⟨hpars', hslots⟩ := hkept _ _ hdir hne hpars
  have hmem := (entryOf_eq_some_iff.mp hfinds.entryOf_start).1
  rw [← hslots] at hmem
  obtain ⟨hrew, hrem⟩ := deleteEntry_spec hpars' hmem hfinds.file_eq
  refine ⟨(hfrees.mirrored hsound.mirrored).congr hrew.fat_eq, ?_⟩
  rw [link_of_fat_eq hrew.fat_eq]
  refine ChainTable.Consistent.release hsound.chains hdir hlist hchain hfrees.freed hfrees.link_same
    (fun other hother hotherNe spot => ?_) hempty
  obtain ⟨others, hothers⟩ := hsound.exists_chain hother
  obtain ⟨hothers', hotherSlots⟩ := hkept other others hother hotherNe hothers
  rw [hslots] at hrem
  refine listings_changed ?_ hrem spot
  by_cases heq : other = dir.start g
  · exact .inr heq
  · left
    rw [dirSlots_congr hothers' (hrew.chain hothers') fun c hc => hrew.data_same c fun hmem =>
      ChainTable.Consistent.dirs_apart hsound.chains hother hdir heq hothers hpars hc hmem,
      hotherSlots]

/-! ## Files -/

/-- An entry without a chain is deleted. -/
lemma Sound.deleteEntry_of_none (hsound : g.Sound d none) (hdir : g.IsDir d (dir.start g))
    (hfinds : Finds g d dir node entry) (hdata : g.clusterIsData node.file.firstCluster = false) :
    g.Consistent (g.deleteEntry d dir node).2 := by
  have hlist := hfinds.listings_eq
  rw [if_neg (by simp [hdata])] at hlist
  obtain ⟨cells, hchain⟩ := hsound.exists_chain hdir
  obtain ⟨hrew, hrem⟩ := deleteEntry_spec hchain (entryOf_eq_some_iff.mp hfinds.entryOf_start).1
    hfinds.file_eq
  exact hsound.relist hdir hchain hrew hrem (by rw [hlist, bind_none])

lemma Sound.unlinkPath (hsound : g.Sound d none) (hlen : path.parentText.length < pathBufferSize) :
    g.Consistent (g.unlinkPath d path.text).2 := by
  rw [Geometry.unlinkPath]
  rcases hfound : g.findPath d path.text with _ | node
  · exact hsound
  obtain ⟨dir, entry, hpar, hdir, hfinds, hname⟩ := exists_finds_of_findPath hfound
  dsimp only
  split
  · exact hsound
  rename_i hkind
  have hfile : node.file.isDir = false := by simpa using (not_or.mp hkind).1
  by_cases hdata : g.clusterIsData node.file.firstCluster = true
  · have hlist := hfinds.listings_eq
    rw [if_pos hdata, hfile] at hlist
    have hholds : Holds g.rootCluster (g.listings d) none
        (.entry (dir.start g) entry.file.direntIndex) node.file.firstCluster := ⟨hdir, _, hlist⟩
    obtain ⟨cells, hchain⟩ := hsound.chains.chained hholds
    obtain ⟨mid, hfree, hfrees⟩ := freeClusterChain_of_chain hchain
    have hapart : ∀ other others, g.IsDir d other → Chain (g.link d) other others →
        cells.Disjoint others := fun other others hother hothers =>
      ChainTable.Consistent.file_apart hsound.chains hdir hlist hother hchain hothers
    have hkeeps := hsound.keepsUsedDirs hfrees fun other others hother _ =>
      hapart other others hother
    rw [if_pos hdata, hfree]
    dsimp only
    rw [hkeeps.deletePath_eq hpar hlen hname]
    exact hsound.release hdir hfinds hdata hchain hfrees
      (fun other others hother _ => hapart other others hother) (by simp [hfile]) (by simp [hfile])
  · rw [if_neg hdata, keepsUsedDirs_refl.deletePath_eq hpar hlen hname]
    exact hsound.deleteEntry_of_none hdir hfinds (by simpa using hdata)

/-! ## Directories -/

lemma getDirEntryFrom_eq (state : LfnState) (rawIndex current index : Nat) (slots : List Slot)
    (hle : current ≤ index) :
    getDirEntryFrom state rawIndex current index slots =
      ((entriesFrom state rawIndex slots)[index - current]?).map Entry.file := by
  induction slots generalizing state rawIndex current with
  | nil => simp [getDirEntryFrom, entriesFrom]
  | cons slot rest ih =>
    rw [getDirEntryFrom, entriesFrom]
    by_cases hend : slot.isEnd = true
    · simp [hend]
    rw [if_neg hend, if_neg hend]
    cases hslot : slot.isEntry with
    | true =>
      obtain ⟨-, hdel, hlfn, hvol⟩ := Slot.isEntry_iff.mp hslot
      obtain ⟨file, hfile⟩ : ∃ file, fillFileFromDirent slot state rawIndex = some file :=
        ⟨_, fillFile_of_isEntry hslot⟩
      rw [if_neg (by simp [hdel]), if_neg (by simp [hlfn]), entryAt, hfile,
        stepState_of_not_isLfn hlfn]
      by_cases hhere : current = index
      · simp [hhere]
      have hindex : index - current = index - (current + 1) + 1 := by omega
      rw [map_some, toList_some, singleton_append, hindex,
        getElem?_cons_succ, ← ih {} (rawIndex + 1) (current + 1) (by omega)]
      simp [hhere]
    | false =>
      rw [entryAt_of_not_isEntry hslot, toList_none, nil_append, ← ih _ _ _ hle]
      have hfill : fillFileFromDirent slot state rawIndex = none := by
        have hnone := @entryAt_of_not_isEntry slot state rawIndex hslot
        rwa [entryAt, map_eq_none_iff] at hnone
      rcases Slot.not_isEntry_cases state hend hslot with ⟨hdel, hstate⟩ |
        ⟨hdel, hlfn, hstate⟩ | ⟨hdel, hlfn, hvol, hstate⟩ <;> simp [*]

lemma getDirEntry_eq (slots : List Slot) (index : Nat) :
    getDirEntry slots index = ((entries slots)[index]?).map Entry.file := by
  rw [getDirEntry, getDirEntryFrom_eq {} 0 0 index slots (Nat.zero_le _)]
  rfl

lemma length_entriesFrom_le (state : LfnState) (index : Nat) (slots : List Slot) :
    (entriesFrom state index slots).length ≤ slots.length := by
  induction slots generalizing state index with
  | nil => exact le_rfl
  | cons slot rest ih =>
    rw [entriesFrom]
    split
    · exact Nat.zero_le _
    · have hrest := ih (stepState state slot) (index + 1)
      cases entryAt slot state index <;> simp <;> omega

lemma isEmptyFrom_spec {slots : List Slot} {index fuel : Nat}
    (hfuel : (entries slots).length < index + fuel) (hempty : isEmptyFrom slots index fuel = true) :
    ∀ entry ∈ (entries slots).drop index, isDotName entry.file.name = true := by
  induction fuel generalizing index with
  | zero =>
    rw [drop_eq_nil_of_le (by omega)]
    exact nofun
  | succ fuel ih =>
    rw [isEmptyFrom, getDirEntry_eq] at hempty
    by_cases hindex : index < (entries slots).length
    · rw [getElem?_eq_getElem hindex, map_some] at hempty
      rw [drop_eq_getElem_cons hindex, forall_mem_cons]
      dsimp only at hempty
      by_cases hdot : isDotName (entries slots)[index].file.name = true
      · rw [if_pos hdot] at hempty
        exact ⟨hdot, ih (by omega) hempty⟩
      · rw [if_neg hdot] at hempty
        exact Bool.noConfusion hempty
    · rw [drop_eq_nil_of_le (by omega)]
      exact nofun

/-- In a directory that is found empty all entries have dot names. -/
lemma isDotName_of_isDirectoryEmpty {slots : List Slot} (hempty : isDirectoryEmpty slots = true) :
    ∀ entry ∈ entries slots, isDotName entry.file.name = true := by
  have hlen := length_entriesFrom_le {} 0 slots
  have hall := @isEmptyFrom_spec slots 0 (slots.length + 1) (by unfold entries; omega) hempty
  simpa using hall

/-- No other entry has a dot name. -/
def DotNamesAreDots (g : Geometry) (disk : Disk) (first : Nat) : Prop :=
  ∀ entry ∈ entries (g.dirSlots disk first), isDotName entry.file.name = true → entry.isDot = true

lemma Sound.rmdirPath (hsound : g.Sound d none) (hlen : path.parentText.length < pathBufferSize)
    (hdots : ∀ node, g.findPath d path.text = some node →
      DotNamesAreDots g d node.file.firstCluster) :
    g.Consistent (g.rmdirPath d path.text).2 := by
  rw [Geometry.rmdirPath]
  rcases hfound : g.findPath d path.text with _ | node
  · exact hsound
  obtain ⟨dir, entry, hpar, hdir, hfinds, hname⟩ := exists_finds_of_findPath hfound
  dsimp only
  split
  · exact hsound
  rename_i hkind
  have hisDir : node.file.isDir = true := by simpa using (not_or.mp hkind).1
  split
  · exact hsound
  rename_i hfull
  have hdot : ∀ other ∈ entries (g.dirSlots d node.file.firstCluster), other.isDot = true :=
    fun other hother => hdots node hfound other hother
      (isDotName_of_isDirectoryEmpty (by simpa using hfull) other hother)
  by_cases hdata : g.clusterIsData node.file.firstCluster = true
  · have hlist := hfinds.listings_eq
    rw [if_pos hdata, hisDir] at hlist
    have hself : g.IsDir d node.file.firstCluster := .enter hdir hlist
    obtain ⟨cells, hchain⟩ := hsound.exists_chain hself
    obtain ⟨mid, hfree, hfrees⟩ := freeClusterChain_of_chain hchain
    have hapart : ∀ other others, g.IsDir d other → other ≠ node.file.firstCluster →
        Chain (g.link d) other others → cells.Disjoint others :=
      fun other others hother hne hothers =>
        ChainTable.Consistent.dirs_apart hsound.chains hself hother hne.symm hchain hothers
    -- a directory that is used is not the one that is removed
    have hused : ∀ other, (∃ entry ∈ entries (g.dirSlots d other), entry.isDot = false) →
        other ≠ node.file.firstCluster := by
      rintro other ⟨entry, hmem, hnotDot⟩ rfl
      rw [hdot entry hmem] at hnotDot
      exact Bool.noConfusion hnotDot
    have hkeeps := hsound.keepsUsedDirs hfrees fun other others hother hentry =>
      hapart other others hother (hused other hentry)
    have hne : dir.start g ≠ node.file.firstCluster := hused _
      ⟨entry, (entryOf_eq_some_iff.mp hfinds.entryOf_start).1, hfinds.notDot⟩
    rw [hfree]
    dsimp only
    rw [hkeeps.deletePath_eq hpar hlen hname]
    refine hsound.release hdir hfinds hdata hchain hfrees
      (fun other others hother hne => hapart other others hother (hne hisDir)) (fun _ => hne) ?_
    intro _ index
    rw [listings]
    cases hentry : entryOf (g.dirSlots d node.file.firstCluster) index with
    | none => rfl
    | some other =>
      have hother := hdot other (entryOf_eq_some_iff.mp hentry).1
      rw [bind_some, held, if_neg (by simp [hother])]
  · rw [freeClusterChain, if_pos (by simpa using hdata)]
    exact hsound

end NexOS.Fat32.Geometry
