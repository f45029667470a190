import NexOS.Fat32.VolumeAllocation

/-! # Creation that fails

A directory without a row for a new entry grows by one cluster, and the row is searched
for again. One cluster is enough unless the clusters are small and the name is long. When
it is not enough, creation fails and the directory stays grown.
-/

namespace NexOS.Fat32

open Nat Option

/-- The slots that an entry of this name takes. -/
def slotsNeeded (name : Name) : Nat :=
  (if nameNeedsLfn name then lfnEntryCountForName name else 0) + 1

/-- Some serial number gives an unused short name. -/
def HasAlias (slots : List Slot) (name : Name) : Prop :=
  ∃ serial < 1000000, shortNameExists slots (makeShortAlias name serial) = false

variable {slots : List Slot} {name : Name}

lemma uniqueShortNameFrom_eq_none_iff {serial tries : Nat} :
    uniqueShortNameFrom slots name serial tries = none ↔
      ∀ k, serial ≤ k → k < serial + tries →
        shortNameExists slots (makeShortAlias name k) = true := by
  induction tries generalizing serial with
  | zero =>
    exact iff_of_true rfl fun k hlow hhigh => absurd hhigh (Nat.not_lt_of_le hlow)
  | succ tries ih =>
    rw [uniqueShortNameFrom]
    split
    next htaken =>
      rw [ih]
      constructor
      · intro hrest k hlow hhigh
        rcases eq_or_lt_of_le hlow with rfl | hlow
        · exact htaken
        · exact hrest k hlow (by omega)
      · exact fun hall k hlow hhigh => hall k (by omega) (by omega)
    next htaken =>
      refine iff_of_false (some_ne_none _) fun hall => htaken ?_
      exact hall serial le_rfl (by omega)

lemma buildUniqueShortName_eq_none_iff :
    buildUniqueShortName slots name = none ↔ ¬ HasAlias slots name := by
  rw [buildUniqueShortName, uniqueShortNameFrom_eq_none_iff]
  simp only [HasAlias, not_exists, not_and, Bool.not_eq_false, zero_le, true_implies]

lemma planEntry_of_new (hnew : findInDirectory slots name = none) :
    planEntry slots name = if 21 < slotsNeeded name then none
      else (buildUniqueShortName slots name).map fun raw => (raw, slotsNeeded name - 1) := by
  unfold planEntry slotsNeeded
  rw [hnew, if_neg (by simp)]
  cases buildUniqueShortName slots name with
  | none => simp
  | some raw =>
    exact if_congr (by omega) rfl rfl

namespace Geometry

open ChainTable

variable {g : Geometry} {d d' : Disk} {dir : Node} {name path : Name} {first : Nat}

/-! ## Free clusters of a consistent volume -/

/-- The number of free clusters. -/
def freeCount (g : Geometry) (disk : Disk) : Nat :=
  (List.range' 2 g.clusterCount).countP fun c => fatValue disk c = 0

/-- A cluster is free, and no bad one is before it. -/
def Allocatable (g : Geometry) (disk : Disk) : Prop :=
  ∃ c, g.IsFree disk c ∧ ∀ bad, g.IsBad disk bad → c < bad

/-- A cluster on a chain is the last one or is linked to a cluster on it. -/
lemma Chain.link_cases {cells : List Nat} {c : Nat} (hchain : Chain (g.link d) first cells)
    (hc : c ∈ cells) :
    g.link d c = .last ∨ ∃ after, g.link d c = .next after ∧ g.clusterIsData after = true := by
  obtain ⟨front, rest, -, hsuffix⟩ := hchain.exists_suffix hc
  cases hsuffix with
  | last hlast => exact .inl hlast
  | next hnext hrest => exact .inr ⟨_, hnext, isData_of_mem_chain hrest hrest.mem_first⟩

/-- The tables of a consistent volume have no illegal values. -/
lemma Consistent.legalTable (hcons : g.Consistent d) : g.LegalTable d := by
  intro c hdata
  have hlink : g.link d c = linkOf (fatValue d c) := if_pos hdata
  by_cases hfree : fatValue d c = 0
  · exact .inl hfree
  by_cases hbad : fatValue d c = clusterBad
  · exact .inr (.inr (.inl hbad))
  rw [linkOf, if_neg hfree, if_neg hbad] at hlink
  obtain ⟨holder, first, cells, -, hchain, hmem⟩ := hcons.chains.covered
    (by rw [hlink]; split_ifs <;> simp) (by rw [hlink]; split_ifs <;> simp)
  rcases Chain.link_cases hchain hmem with hlast | ⟨after, hnext, hafter⟩
  · rw [hlink] at hlast
    split_ifs at hlast with hend
    exact .inr (.inr (.inr hend))
  · rw [hlink] at hnext
    split_ifs at hnext with hend
    rw [← Link.next.inj hnext] at hafter
    exact .inr (.inl hafter)

/-- Allocation fails exactly if every free cluster is behind a bad one. -/
lemma Consistent.allocCluster_eq_none_iff (hcons : g.Consistent d) :
    g.allocCluster d = none ↔ ¬ g.Allocatable d := by
  have hscanned := scanned_allocFrom hcons.legalTable g.clusterCount 2 le_rfl (add_comm _ _)
  have hlow : ∀ {c}, g.IsFree d c → 2 ≤ c := fun hfree => (clusterIsData_iff.mp hfree.1).1
  rw [allocCluster]
  generalize g.allocFrom d 2 g.clusterCount = result at hscanned ⊢
  cases hscanned with
  | found new hfree hpass =>
    exact iff_of_false (some_ne_none _)
      (not_not_intro ⟨new, hfree, fun bad hbad => lt_of_isBad hfree hpass hbad⟩)
  | full hpass =>
    refine iff_of_true rfl ?_
    rintro ⟨c, hfree, -⟩
    exact hpass c (hlow hfree) hfree
  | stopped bad hbad hpass =>
    refine iff_of_true rfl ?_
    rintro ⟨c, hfree, hbefore⟩
    exact hpass c (hlow hfree) (hbefore bad hbad).le hfree

/-! ## Growth -/

/-- The slots of a directory that clusters were added to. -/
def slotsGrown (g : Geometry) (disk : Disk) (dir : Node) (clusters : Nat) : List Slot :=
  g.dirSlots disk dir.file.firstCluster ++ List.replicate (clusters * g.slotsPerCluster) Slot.zero

lemma slotsGrown_zero : g.slotsGrown d dir 0 = g.dirSlots d dir.file.firstCluster := by
  rw [slotsGrown, zero_mul, List.replicate_zero, List.append_nil]

/-- A directory cannot grow when no cluster can be allocated. -/
lemma Consistent.append_of_full (hcons : g.Consistent d) (hdir : g.IsDir d (dir.start g))
    (hfull : ¬ g.Allocatable d) :
    g.appendDirectoryCluster d dir.file.firstCluster = (false, d) := by
  obtain ⟨cells, hchain⟩ := Sound.exists_chain hcons hdir
  obtain ⟨tail, htail, hmem, hlast⟩ := lastCluster_of_chain hchain (length_chain_le hchain)
  have hnone := hcons.allocCluster_eq_none_iff.mpr hfull
  have happ : g.appendFileCluster d tail = (none, d) := by
    rw [appendFileCluster, if_neg (by simp [isData_of_mem_chain hchain hmem]), hnone]
  rw [appendDirectoryCluster,
    show g.dirFirstCluster dir.file.firstCluster = dir.start g from rfl, htail]
  simp only [happ]
  rfl

/-- A directory grows by a cleared cluster when one can be allocated, and the table changes. -/
lemma Consistent.append_of_free (hcons : g.Consistent d) (hdir : g.IsDir d (dir.start g))
    (hfree : g.Allocatable d) :
    ∃ d', g.appendDirectoryCluster d dir.file.firstCluster = (true, d') ∧
      g.dirSlots d' dir.file.firstCluster = g.slotsGrown d dir 1 ∧ d'.fat ≠ d.fat := by
  obtain ⟨cells, hchain⟩ := Sound.exists_chain hcons hdir
  obtain ⟨tail, htail, hmem, hlast⟩ := lastCluster_of_chain hchain (length_chain_le hchain)
  obtain ⟨holder, hholder, -⟩ := @Reach.exists_holder _ _ _ _ none _ hdir
  rcases appendFileCluster_cases hlast with hfail | ⟨new, d', happ, happs⟩
  · -- with a cluster that was allocated, appending does not fail
    rcases halloc : g.allocCluster d with _ | found
    · exact absurd hfree (hcons.allocCluster_eq_none_iff.mp halloc)
    have hdata := isData_of_mem_chain hchain hmem
    rw [appendFileCluster, if_neg (by simp [hdata]), halloc] at hfail
    dsimp only at hfail
    rw [writeFatEntry_of_isData hdata
      (.inr (.inr (allocates_of_allocCluster halloc).isData))] at hfail
    cases (Prod.mk.inj hfail).1
  · have hgrows := Sound.grow hcons hholder hchain hmem hlast happs
    refine ⟨d', ?_, ?_, fun hsame => ?_⟩
    · rw [appendDirectoryCluster,
        show g.dirFirstCluster dir.file.firstCluster = dir.start g from rfl, htail]
      simp only [happ]
      rfl
    · rw [← dirSlots_norm, slotsGrown, ← dirSlots_norm d, one_mul]
      exact hgrows.slots_grown
    · have hlink := happs.link_new
      rw [link_of_fat_eq hsame, happs.wasFree] at hlink
      cases hlink

/-! ## The ways that creation ends -/

section Entry

variable (hnew : findInDirectory (g.dirSlots d dir.file.firstCluster) name = none)
  {attr : UInt8} {cluster : Nat}

include hnew

lemma createEntry_of_long (hlong : 21 < slotsNeeded name) :
    g.createEntry d dir name attr cluster = (none, d) := by
  unfold createEntry
  dsimp only
  rw [planEntry_of_new hnew, if_pos hlong]

lemma createEntry_of_no_alias (halias : ¬ HasAlias (g.dirSlots d dir.file.firstCluster) name) :
    g.createEntry d dir name attr cluster = (none, d) := by
  unfold createEntry
  dsimp only
  rw [planEntry_of_new hnew, buildUniqueShortName_eq_none_iff.mpr halias, map_none, ite_self]

variable (hneed : slotsNeeded name ≤ 21)
  (halias : HasAlias (g.dirSlots d dir.file.firstCluster) name)

include hneed halias

lemma exists_planEntry : ∃ raw, planEntry (g.dirSlots d dir.file.firstCluster) name =
    some (raw, slotsNeeded name - 1) := by
  rw [planEntry_of_new hnew, if_neg (Nat.not_lt_of_le hneed)]
  cases hshort : buildUniqueShortName (g.dirSlots d dir.file.firstCluster) name with
  | none => exact absurd halias (buildUniqueShortName_eq_none_iff.mp hshort)
  | some raw => exact ⟨raw, rfl⟩

lemma createEntry_of_row (hrow : HasRow (slotsNeeded name) (g.dirSlots d dir.file.firstCluster)) :
    (g.createEntry d dir name attr cluster).1.isSome = true := by
  have hpos : 0 < slotsNeeded name := Nat.succ_pos _
  obtain ⟨raw, hplan⟩ := exists_planEntry hnew hneed halias
  obtain ⟨start, hstart⟩ :=
    Option.isSome_iff_exists.mp ((locateFreeDirentSpan_isSome_iff hpos).mpr hrow)
  unfold createEntry
  dsimp only
  rw [hplan]
  dsimp only
  rw [Nat.sub_add_cancel hpos, hstart]
  rfl

variable (hrow : ¬ HasRow (slotsNeeded name) (g.dirSlots d dir.file.firstCluster))

include hrow

/-- Without a row, creation depends on whether the directory can grow. -/
lemma createEntry_of_no_row : ∃ raw, g.createEntry d dir name attr cluster =
    match g.appendDirectoryCluster d dir.file.firstCluster with
    | (false, d) => (none, d)
    | (true, d) =>
      match locateFreeDirentSpan (g.dirSlots d dir.file.firstCluster) (slotsNeeded name) with
      | some start =>
        let file := createdFile name raw (slotsNeeded name - 1) attr cluster start
        (some ⟨file, g.rawEntryPosition d dir.file.firstCluster file.direntIndex⟩,
          g.writeSlotsFrom d dir.file.firstCluster start
            (entrySlots name raw (slotsNeeded name - 1) attr cluster))
      | none => (none, d) := by
  have hpos : 0 < slotsNeeded name := Nat.succ_pos _
  obtain ⟨raw, hplan⟩ := exists_planEntry hnew hneed halias
  have hnone :
      locateFreeDirentSpan (g.dirSlots d dir.file.firstCluster) (slotsNeeded name) = none := by
    rw [← Option.not_isSome_iff_eq_none, locateFreeDirentSpan_isSome_iff hpos]
    exact hrow
  refine ⟨raw, ?_⟩
  unfold createEntry
  dsimp only
  rw [hplan]
  dsimp only
  rewrite [Nat.sub_add_cancel hpos, hnone]
  obtain ⟨grown, d'⟩ := g.appendDirectoryCluster d dir.file.firstCluster
  cases grown <;> rfl

variable (hcons : g.Consistent d) (hdir : g.IsDir d (dir.start g))

include hcons hdir

lemma createEntry_of_full (hfull : ¬ g.Allocatable d) :
    g.createEntry d dir name attr cluster = (none, d) := by
  obtain ⟨raw, hcreate⟩ := @createEntry_of_no_row _ _ _ _ hnew attr cluster hneed halias hrow
  rw [hcreate, hcons.append_of_full hdir hfull]

lemma createEntry_of_grown (hfree : g.Allocatable d)
    (hgrown : HasRow (slotsNeeded name) (g.slotsGrown d dir 1)) :
    (g.createEntry d dir name attr cluster).1.isSome = true := by
  obtain ⟨raw, hcreate⟩ := @createEntry_of_no_row _ _ _ _ hnew attr cluster hneed halias hrow
  obtain ⟨d', happ, hslots, -⟩ := hcons.append_of_free hdir hfree
  have hpos : 0 < slotsNeeded name := succ_pos _
  rw [← hslots, ← locateFreeDirentSpan_isSome_iff hpos] at hgrown
  obtain ⟨start, hstart⟩ := isSome_iff_exists.mp hgrown
  rw [hcreate, happ]
  dsimp only
  rw [hstart]
  rfl

/-- A directory that has grown without getting room stays grown. -/
lemma createEntry_of_short (hfree : g.Allocatable d)
    (hgrown : ¬ HasRow (slotsNeeded name) (g.slotsGrown d dir 1)) :
    ∃ d', g.createEntry d dir name attr cluster = (none, d') ∧ d'.fat ≠ d.fat := by
  obtain ⟨raw, hcreate⟩ := @createEntry_of_no_row _ _ _ _ hnew attr cluster hneed halias hrow
  obtain ⟨d', happ, hslots, hfat⟩ := hcons.append_of_free hdir hfree
  have hnone :
      locateFreeDirentSpan (g.dirSlots d' dir.file.firstCluster) (slotsNeeded name) = none := by
    have hpos : 0 < slotsNeeded name := succ_pos _
    rw [← not_isSome_iff_eq_none, locateFreeDirentSpan_isSome_iff hpos, hslots]
    exact hgrown
  refine ⟨d', ?_, hfat⟩
  rw [hcreate, happ]
  dsimp only
  rw [hnone]

end Entry

/-! ## The law -/

/-- The path asks for a new name in a directory, with an entry of at most 21 slots. -/
structure Wanted (g : Geometry) (disk : Disk) (path : Name) (dir : Node) (name : Name) : Prop where
  split : ∃ parent, splitParentChildPath path = some (parent, name) ∧
    g.findParent disk parent = some dir
  allowed : isRefusedName name = false
  new : g.findIn disk dir name = none
  needed : slotsNeeded name ≤ 21

/-- The directories, the tables and the number of free clusters are the same. -/
structure Unchanged (g : Geometry) (disk disk' : Disk) : Prop where
  fat : disk'.fat = disk.fat
  slots : ∀ first, g.dirSlots disk' first = g.dirSlots disk first
  free : g.freeCount disk' = g.freeCount disk

/-- Creation succeeds if the directory would have room with the free clusters appended to
it, and a creation that fails changes nothing. -/
structure CreatesCleanly (g : Geometry) (disk : Disk) (path : Name) : Prop where
  succeeds : ∀ dir name, g.Wanted disk path dir name →
    HasRow (slotsNeeded name) (g.slotsGrown disk dir (g.freeCount disk)) →
    (g.createPath disk path).1.isSome = true
  clean : (g.createPath disk path).1 = none → g.Unchanged disk (g.createPath disk path).2

/-- There is a short name for the entry, and it fits into the directory, or one more cluster can
be allocated and makes it fit, or none can and all free ones would not; or there is neither a
short name nor room. -/
structure CreationFits (g : Geometry) (disk : Disk) (dir : Node) (name : Name) : Prop where
  room : HasAlias (g.dirSlots disk dir.file.firstCluster) name →
    HasRow (slotsNeeded name) (g.slotsGrown disk dir 0) ∨
      g.Allocatable disk ∧ HasRow (slotsNeeded name) (g.slotsGrown disk dir 1) ∨
      ¬ g.Allocatable disk ∧
        ¬ HasRow (slotsNeeded name) (g.slotsGrown disk dir (g.freeCount disk))
  alias_free : ¬ HasAlias (g.dirSlots disk dir.file.firstCluster) name →
    ¬ HasRow (slotsNeeded name) (g.slotsGrown disk dir (g.freeCount disk))

lemma file_isDir_of_findParent {parent : Name} (hpar : g.findParent d parent = some dir) :
    dir.file.isDir = true := by
  rw [findParent] at hpar
  split_ifs at hpar with hroot
  · obtain rfl := Option.some.inj hpar
    simp [getRootDir, File.isDir, attrDirectory]
  rcases hfound : g.findPath d parent with _ | node
  · simp [hfound] at hpar
  simp only [hfound] at hpar
  split_ifs at hpar with hisDir
  obtain rfl := Option.some.inj hpar
  simpa using hisDir

lemma findInDirectory_of_findIn (hisDir : dir.file.isDir = true)
    (hnew : g.findIn d dir name = none) :
    findInDirectory (g.dirSlots d dir.file.firstCluster) name = none := by
  rw [findIn, if_neg (by simp [hisDir])] at hnew
  exact map_eq_none_iff.mp hnew

lemma Wanted.findInDirectory_eq (hwant : g.Wanted d path dir name) :
    findInDirectory (g.dirSlots d dir.file.firstCluster) name = none := by
  obtain ⟨parent, -, hpar⟩ := hwant.split
  exact findInDirectory_of_findIn (file_isDir_of_findParent hpar) hwant.new

lemma Wanted.createPath_eq (hwant : g.Wanted d path dir name) :
    g.createPath d path = g.createEntry d dir name 0 0 := by
  obtain ⟨parent, hsplit, hpar⟩ := hwant.split
  rw [createPath, hsplit]
  dsimp only
  rw [if_neg (by simp [hwant.allowed]), hpar]
  dsimp only
  rw [if_neg (by simp [hwant.new])]

/-- What is not wanted is refused before anything is written. -/
lemma createPath_of_not_wanted (hnot : ∀ dir name, ¬ g.Wanted d path dir name) :
    g.createPath d path = (none, d) := by
  unfold createPath
  rcases hsplit : splitParentChildPath path with _ | parts
  · rfl
  obtain ⟨parent, name⟩ := parts
  dsimp only
  split_ifs with hrefuse
  · rfl
  rcases hpar : g.findParent d parent with _ | dir
  · rfl
  dsimp only
  split_ifs with hfound
  · rfl
  have hnew : g.findIn d dir name = none := by simpa using hfound
  refine createEntry_of_long (findInDirectory_of_findIn (file_isDir_of_findParent hpar) hnew) ?_
  by_contra hshort
  exact hnot dir name ⟨⟨parent, hsplit, hpar⟩, by simpa using hrefuse, hnew,
    Nat.le_of_not_lt hshort⟩

lemma unchanged_refl (g : Geometry) (d : Disk) : g.Unchanged d d := ⟨rfl, fun _ => rfl, rfl⟩

/-- On every consistent volume and for every path to one of its directories: creation is clean
exactly if the entry fits. -/
theorem createPath_clean_iff (hcons : g.Consistent d)
    (hdirs : ∀ dir name, g.Wanted d path dir name → g.IsDir d (dir.start g)) :
    g.CreatesCleanly d path ↔ ∀ dir name, g.Wanted d path dir name → g.CreationFits d dir name := by
  constructor
  · intro hclean dir name hwant
    have hnew := hwant.findInDirectory_eq
    have hdir := hdirs dir name hwant
    constructor
    · intro halias
      rw [slotsGrown_zero, or_iff_not_imp_left]
      intro hrow
      by_cases hfree : g.Allocatable d
      · refine .inl ⟨hfree, ?_⟩
        by_contra hgrown
        obtain ⟨d', hcreate, hfat⟩ := @createEntry_of_short _ _ _ _ hnew 0 0 hwant.needed halias
          hrow hcons hdir hfree hgrown
        have hunchanged := hclean.clean
        rw [hwant.createPath_eq, hcreate] at hunchanged
        exact hfat (hunchanged rfl).fat
      · refine .inr ⟨hfree, fun hroom => ?_⟩
        have hsome := hclean.succeeds dir name hwant hroom
        rw [hwant.createPath_eq,
          createEntry_of_full hnew hwant.needed halias hrow hcons hdir hfree] at hsome
        exact Bool.noConfusion hsome
    · intro halias hroom
      have hsome := hclean.succeeds dir name hwant hroom
      rw [hwant.createPath_eq, createEntry_of_no_alias hnew halias] at hsome
      exact Bool.noConfusion hsome
  intro hfits
  -- with an alias, creation succeeds or no cluster can be allocated
  have hends : ∀ dir name, g.Wanted d path dir name →
      HasAlias (g.dirSlots d dir.file.firstCluster) name →
      (g.createPath d path).1.isSome = true ∨ g.createPath d path = (none, d) ∧
        ¬ HasRow (slotsNeeded name) (g.slotsGrown d dir (g.freeCount d)) := by
    intro dir name hwant halias
    have hnew := hwant.findInDirectory_eq
    have hdir := hdirs dir name hwant
    rw [hwant.createPath_eq]
    by_cases hrow : HasRow (slotsNeeded name) (g.dirSlots d dir.file.firstCluster)
    · exact .inl (createEntry_of_row hnew hwant.needed halias hrow)
    rcases (hfits dir name hwant).room halias with hzero | ⟨hfree, hgrown⟩ | ⟨hfull, hroom⟩
    · rw [slotsGrown_zero] at hzero
      exact absurd hzero hrow
    · exact .inl (createEntry_of_grown hnew hwant.needed halias hrow hcons hdir hfree hgrown)
    · exact .inr ⟨createEntry_of_full hnew hwant.needed halias hrow hcons hdir hfull, hroom⟩
  constructor
  · intro dir name hwant hroom
    by_cases halias : HasAlias (g.dirSlots d dir.file.firstCluster) name
    · exact (hends dir name hwant halias).resolve_right fun h => h.2 hroom
    · exact absurd hroom ((hfits dir name hwant).alias_free halias)
  intro hnone
  have hsame : (g.createPath d path).2 = d := by
    by_cases hwant : ∃ dir name, g.Wanted d path dir name
    · obtain ⟨dir, name, hwant⟩ := hwant
      by_cases halias : HasAlias (g.dirSlots d dir.file.firstCluster) name
      · rcases hends dir name hwant halias with hsome | ⟨hfail, -⟩
        · simp [hnone] at hsome
        · rw [hfail]
      · rw [hwant.createPath_eq, createEntry_of_no_alias hwant.findInDirectory_eq halias]
    · rw [createPath_of_not_wanted fun dir name h => hwant ⟨dir, name, h⟩]
  rw [hsame]
  exact unchanged_refl g d

lemma Wanted.of_single {new : Name} (hwant : g.Wanted d path dir name)
    (hsplit : splitParentChildPath path = some ([], new)) : dir = g.getRootDir ∧ name = new := by
  obtain ⟨parent, hparts, hpar⟩ := hwant.split
  obtain ⟨rfl, rfl⟩ := Prod.mk.inj (Option.some.inj (hsplit.symm.trans hparts))
  exact ⟨(Option.some.inj hpar).symm, rfl⟩

/-- A name of 221 bytes takes 18 slots, and the empty root directory of 16 slots grows. -/
theorem createPath_clean_blank : small.CreatesCleanly blankVolume (List.replicate 221 0x61) := by
  have hsplit : splitParentChildPath (List.replicate 221 0x61) =
      some ([], List.replicate 221 0x61) := by
    decide +kernel
  refine (createPath_clean_iff consistent_blankVolume fun dir name hwant => ?_).mpr
    fun dir name hwant => ?_
  · obtain ⟨rfl, -⟩ := hwant.of_single hsplit
    exact isDir_getRootDir
  · obtain ⟨rfl, rfl⟩ := hwant.of_single hsplit
    refine ⟨fun _ => .inr (.inl ⟨?_, ?_⟩),
      fun halias => absurd ⟨0, by decide, by decide +kernel⟩ halias⟩
    · by_contra hfull
      exact absurd (consistent_blankVolume.allocCluster_eq_none_iff.mpr hfull) (by decide +kernel)
    · rw [← locateFreeDirentSpan_isSome_iff (by decide +kernel)]
      decide +kernel

/-- A root directory of sixteen entries, without a free slot. -/
def fullVolume : Disk :=
  volumeOf [2] fun _ => (List.range 16).map fun i =>
    shortDirent (pad 11 [UInt8.ofNat (0x41 + i)]) 0 0

lemma consistent_fullVolume : small.Consistent fullVolume :=
  consistent_of_owners (mirrored_volumeOf _ _ _)
    (isDir_iff_mem isDir_root (by decide) (by decide +kernel))
    (by decide +kernel) (by decide +kernel) (by decide +kernel)

/-- Five clusters are free. The full root directory has no room for a name of 18 slots, one more
cluster does not give it room, and two would. Creation fails, and a free cluster is lost. -/
theorem createPath_grows_in_vain : small.Consistent fullVolume ∧ small.freeCount fullVolume = 5 ∧
      small.Wanted fullVolume (List.replicate 221 0x61) small.getRootDir (List.replicate 221 0x61) ∧
      HasRow (slotsNeeded (List.replicate 221 0x61))
        (small.slotsGrown fullVolume small.getRootDir 2) ∧
      (small.createPath fullVolume (List.replicate 221 0x61)).1 = none ∧
      small.freeCount (small.createPath fullVolume (List.replicate 221 0x61)).2 = 4 ∧
      ¬ small.CreatesCleanly fullVolume (List.replicate 221 0x61) := by
  have hfail : (small.createPath fullVolume (List.replicate 221 0x61)).1 = none := by
    decide +kernel
  have hcount : small.freeCount (small.createPath fullVolume (List.replicate 221 0x61)).2 = 4 := by
    decide +kernel
  refine ⟨consistent_fullVolume, by decide +kernel,
    ⟨⟨[], by decide +kernel, rfl⟩, by decide +kernel, ?_,
    by decide +kernel⟩, ?_, hfail, hcount, fun hclean => ?_⟩
  · decide +kernel
  · rw [← locateFreeDirentSpan_isSome_iff (by decide +kernel)]
    decide +kernel
  · have hfree := (hclean.clean hfail).free
    exact absurd hfree (by decide +kernel)

end Geometry

end NexOS.Fat32
