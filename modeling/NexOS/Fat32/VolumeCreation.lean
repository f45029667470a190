import NexOS.Fat32.VolumeState

/-! # Creation of entries on a volume

A directory grows by a cleared cluster when it has no room for a new entry, and the slots
of the entry are written to a free row. A file is created without a cluster, so that it
holds nothing yet. A directory takes over the cluster that was allocated for it.
-/

namespace NexOS.Fat32.Geometry

open ChainTable Option

variable {g : Geometry} {d d' : Disk} {aside : Option Nat} {dir : Node} {first : Nat}
  {cells : List Nat} {name : Name} {attr : UInt8} {cluster : Nat} {raw : List UInt8}

/-! ## The first cluster of a directory -/

lemma isData_dirFirstCluster (first : Nat) : g.clusterIsData (g.dirFirstCluster first) = true := by
  unfold dirFirstCluster
  split
  next hdata => exact hdata
  · exact clusterIsData_root

lemma dirClusters_norm (d : Disk) (first : Nat) :
    g.dirClusters d (g.dirFirstCluster first) = g.dirClusters d first := by
  rw [dirClusters, dirFirstCluster_of_isData (isData_dirFirstCluster first)]
  rfl

lemma dirSlots_norm (d : Disk) (first : Nat) :
    g.dirSlots d (g.dirFirstCluster first) = g.dirSlots d first := by
  rw [dirSlots, dirClusters_norm]
  rfl

lemma rawEntryPosition_norm (d : Disk) (first index : Nat) :
    g.rawEntryPosition d (g.dirFirstCluster first) index = g.rawEntryPosition d first index := by
  rw [rawEntryPosition, dirClusters_norm]
  rfl

lemma writeSlotsFrom_norm (d : Disk) (first start : Nat) (new : List Slot) :
    g.writeSlotsFrom d (g.dirFirstCluster first) start new =
      g.writeSlotsFrom d first start new := by
  induction new generalizing d start with
  | nil => rfl
  | cons slot rest ih => rw [writeSlotsFrom, writeSlotsFrom, rawEntryPosition_norm, ih]

lemma deleteDirents_norm (d : Disk) (first : Nat) (isEntry : Bool) (index count : Nat) :
    g.deleteDirents d (g.dirFirstCluster first) isEntry index count =
      g.deleteDirents d first isEntry index count := by
  induction count generalizing d isEntry index with
  | zero => rw [deleteDirents, deleteDirents]
  | succ count ih =>
    rw [deleteDirents, deleteDirents, rawEntryPosition_norm]
    rcases g.rawEntryPosition d first index with _ | place
    · rfl
    cases count with
    | zero => rfl
    | succ count =>
      cases index with
      | zero => rfl
      | succ index => exact ih _ _ _

lemma appendDirectoryCluster_norm (d : Disk) (first : Nat) :
    g.appendDirectoryCluster d (g.dirFirstCluster first) = g.appendDirectoryCluster d first := by
  rw [appendDirectoryCluster, dirFirstCluster_of_isData (isData_dirFirstCluster first)]
  rfl

/-- The node with the cluster that a scan of the directory begins with. -/
def Node.norm (g : Geometry) (dir : Node) : Node :=
  { dir with file := { dir.file with firstCluster := g.dirFirstCluster dir.file.firstCluster } }

lemma createEntry_norm (d : Disk) (dir : Node) (name : Name) (attr : UInt8) (cluster : Nat) :
    g.createEntry d (Node.norm g dir) name attr cluster =
      g.createEntry d dir name attr cluster := by
  simp only [createEntry, Node.norm, dirSlots_norm, rawEntryPosition_norm, writeSlotsFrom_norm,
    appendDirectoryCluster_norm]

/-! ## Room for an entry -/

/-- A directory is as it was or has grown by cleared slots. -/
structure Roomier (g : Geometry) (disk : Disk) (aside : Option Nat) (first : Nat) (disk' : Disk) :
    Prop where
  sound : g.Sound disk' aside
  kept : ∀ dir, g.IsDir disk dir → dir ≠ first → g.dirSlots disk' dir = g.dirSlots disk dir
  grown : ∃ zeros, (∀ slot ∈ zeros, slot.isEnd = true) ∧
    g.dirSlots disk' first = g.dirSlots disk first ++ zeros
  aside_kept : ∀ {new others}, aside = some new → Chain (g.link disk) new others →
    Chain (g.link disk') new others ∧ ∀ c ∈ others, disk'.data c = disk.data c

lemma Sound.roomier_refl (hsound : g.Sound d aside) : Roomier g d aside first d where
  sound := hsound
  kept _ _ _ := rfl
  grown := ⟨[], nofun, (List.append_nil _).symm⟩
  aside_kept _ hchain := ⟨hchain, fun _ _ => rfl⟩

lemma Roomier.isDir_iff (hroom : Roomier g d aside first d') {dir : Nat} :
    g.IsDir d' dir ↔ g.IsDir d dir := by
  refine isDir_congr fun dir hdir => ?_
  by_cases hne : dir = first
  · subst hne
    obtain ⟨zeros, hzeros, hslots⟩ := hroom.grown
    funext index
    rw [listings, listings, entryOf, entryOf, hslots, entries_append_zeros hzeros]
  · exact listings_congr (hroom.kept dir hdir hne)

/-- Appending a cluster to a directory fails and changes nothing, or makes room. -/
lemma Sound.appendDirectoryCluster (hsound : g.Sound d aside) (hdir : g.IsDir d first) :
    Roomier g d aside first (g.appendDirectoryCluster d first).2 := by
  obtain ⟨cells, hchain⟩ := hsound.exists_chain hdir
  obtain ⟨tail, htail, hmem, hlast⟩ := lastCluster_of_chain hchain (length_chain_le hchain)
  obtain ⟨holder, hholder, hcases⟩ := @Reach.exists_holder _ _ _ _ aside _ hdir
  rw [Geometry.appendDirectoryCluster, dirFirstCluster_of_chain hchain, htail]
  rcases appendFileCluster_cases hlast with hfail | ⟨new, d', happ, happs⟩
  · simp only [hfail]
    exact hsound.roomier_refl
  simp only [happ]
  have hgrows := hsound.grow hholder hchain hmem hlast happs
  refine ⟨hgrows.sound, fun dir hdir hne => hgrows.slots_same hsound hdir hne,
    ⟨_, replicate_zero_isEnd _, hgrows.slots_grown⟩, ?_⟩
  rintro new others rfl hothers
  have haside : Holds g.rootCluster (g.listings d) (some new) .aside new := rfl
  refine hgrows.kept haside (fun heq => ?_) hothers
  obtain ⟨rfl, -⟩ := Prod.mk.inj heq
  rcases hcases with hroot | ⟨_, _, hentry, -⟩
  · cases hroot
  · cases hentry

/-! ## New entries -/

/-- What creation does: nothing but growth, or a new entry in a free row. -/
inductive Creates (g : Geometry) (disk : Disk) (aside : Option Nat) (first : Nat)
    (attributes : UInt8) (cluster : Nat) : Option Node × Disk → Prop
  | failed {disk' : Disk} (hroomier : Roomier g disk aside first disk') :
      Creates g disk aside first attributes cluster (none, disk')
  | created {middle disk' : Disk} (hroomier : Roomier g disk aside first middle) {cells : List Nat}
      (hchain : Chain (g.link middle) first cells) (hrewrites : Rewrites middle cells disk')
      {raw : List UInt8} {index : Nat} {new : Entry} (hraw : ∃ base ext, ShortParts raw base ext)
      (hnew : NewEntry raw attributes cluster index new)
      (hvacant : entryOf (g.dirSlots middle first) index = none)
      (hplaced : ∀ other, entryOf (g.dirSlots disk' first) other =
        if other = index then some new else entryOf (g.dirSlots middle first) other) (node : Node) :
      Creates g disk aside first attributes cluster (some node, disk')

lemma trimmed_entrySlots {lfns : Nat} :
    ∀ slot ∈ entrySlots name raw lfns attr cluster, Trimmed slot := by
  simp only [entrySlots, List.mem_append, List.mem_map, List.mem_singleton]
  rintro slot (⟨i, -, rfl⟩ | rfl)
  · intro b hb
    simp (disch := omega) only [populateLfnDirent, if_neg]
  · exact trimmed_shortDirent

lemma Roomier.creates {mid : Disk} (hroom : Roomier g d aside first mid)
    (hdir : g.IsDir d first) (hended : Ended (g.dirSlots d first))
    {lfns start : Nat} (hplan : planEntry (g.dirSlots d first) name = some (raw, lfns))
    (hloc : locateFreeDirentSpan (g.dirSlots mid first) (lfns + 1) = some start)
    (hattr : attr = 0 ∨ attr = attrDirectory) (hclus : cluster < 2 ^ 32) (node : Node) :
    Creates g d aside first attr cluster
      (some node, g.writeSlotsFrom mid first start (entrySlots name raw lfns attr cluster)) := by
  obtain ⟨cells, hchain⟩ := hroom.sound.exists_chain (hroom.isDir_iff.mpr hdir)
  obtain ⟨zeros, hzeros, hgrown⟩ := hroom.grown
  obtain ⟨front, free, back, hspan, rfl, hlen⟩ := exists_freeSpan (Nat.succ_pos lfns) hloc
  have hplanned := planned_of_planEntry hplan
  have hplan' : Planned (g.dirSlots mid first) name raw lfns :=
    hplanned.congr (by rw [hgrown, entries_append_zeros hzeros])
  have hended' : Ended (g.dirSlots mid first) := hgrown ▸ Ended.append_zeros hended hzeros
  have hfits : front.length + (entrySlots name raw lfns attr cluster).length ≤
      (g.dirSlots mid first).length := by
    rw [hspan.slots_eq, length_entrySlots, List.length_append, List.length_append]
    omega
  obtain ⟨hrew, hslots⟩ := writeSlotsFrom_spec hchain hfits trimmed_entrySlots
  rw [writeSlots_span hspan (by rw [length_entrySlots, hlen])] at hslots
  obtain ⟨new, hnew, hvac, hplace⟩ :=
    @FreeSpan.entryOf_put _ _ _ name raw lfns attr cluster _ hspan hended' hlen hplan' hattr hclus
  rw [← hslots] at hplace
  exact .created hroom hchain hrew hplanned.raw_short hnew hvac hplace node

/-- Creation in a directory of a consistent volume. -/
lemma Sound.creates (hsound : g.Sound d aside) (hdir : g.IsDir d dir.file.firstCluster)
    (hended : Ended (g.dirSlots d dir.file.firstCluster))
    (hattr : attr = 0 ∨ attr = attrDirectory) (hclus : cluster < 2 ^ 32) :
    Creates g d aside dir.file.firstCluster attr cluster
      (g.createEntry d dir name attr cluster) := by
  unfold createEntry
  dsimp only
  rcases hplan : planEntry (g.dirSlots d dir.file.firstCluster) name with _ | plan
  · exact .failed hsound.roomier_refl
  obtain ⟨raw, lfns⟩ := plan
  dsimp only
  cases hloc : locateFreeDirentSpan (g.dirSlots d dir.file.firstCluster) (lfns + 1) with
  | some start =>
    exact hsound.roomier_refl.creates hdir hended hplan hloc hattr hclus _
  | none =>
    have hroom := hsound.appendDirectoryCluster hdir
    dsimp only
    split
    next d' happ =>
      rw [happ] at hroom
      exact .failed hroom
    next d' happ =>
      rw [happ] at hroom
      cases hgrown : locateFreeDirentSpan (g.dirSlots d' dir.file.firstCluster)
          (lfns + 1) with
      | some start => exact hroom.creates hdir hended hplan hgrown hattr hclus _
      | none => exact .failed hroom

/-- A new entry is no dot entry. -/
lemma isDot_eq_false_of_new {index : Nat} {new : Entry}
    (hnew : NewEntry raw attr cluster index new) (hraw : ∃ base ext, ShortParts raw base ext) :
    new.isDot = false := by
  obtain ⟨base, ext, hparts⟩ := hraw
  have hfits := (normalize_of_sameName_format hparts (sameName_refl _)).1
  by_contra hdot
  have hname := (Entry.isDotName_of_isDot (by simpa using hdot)).2
  rw [hnew.raw_eq] at hname
  rw [not_fits_of_isDotName hname] at hfits
  exact Bool.noConfusion hfits

/-- A file that is created holds nothing. -/
lemma Creates.consistent {result : Option Node × Disk}
    (hcreate : Creates g d none first 0 0 result) (hdir : g.IsDir d first) :
    g.Consistent result.2 := by
  cases hcreate with
  | failed hroom => exact hroom.sound
  | created hroom hchain hrew hraw hnew hvac hplace node =>
    have hheld : g.held _ = none := if_neg (by rw [hnew.firstCluster_eq]; simp [clusterIsData])
    refine hroom.sound.relist (hroom.isDir_iff.mpr hdir) hchain hrew hplace ?_
    rw [bind_some, hheld, listings, hvac, bind_none]

/-- A directory that is created takes over its cluster. -/
lemma Creates.consistent_dir {node : Node} {new : Nat}
    (hcreate : Creates g d (some new) first attrDirectory new (some node, d'))
    (hdir : g.IsDir d first) (hdata : g.clusterIsData new = true)
    (hchain : Chain (g.link d) new cells)
    (hempty : ∀ index, g.listings d new index = none) : g.Consistent d' := by
  cases hcreate with
  | @created mid _ hroom cells' hchain' hrew raw index entry hraw hnew hvac hplace _ =>
    have hdir' := hroom.isDir_iff.mpr hdir
    have hsame := hroom.sound.rewrite hdir' hchain' hrew
    obtain ⟨hnewChain, hnewData⟩ := hroom.aside_kept rfl hchain
    have hapart := ChainTable.Consistent.aside_apart hroom.sound.chains hdir' hnewChain hchain'
    have hheld : g.held entry = some ⟨true, new⟩ := by
      rw [held, if_pos ⟨isDot_eq_false_of_new hnew hraw, by rw [hnew.firstCluster_eq, hdata]⟩,
        hnew.firstCluster_eq, File.isDir, hnew.attributes_eq]
      rfl
    refine ⟨hroom.sound.mirrored.congr hrew.fat_eq, ?_⟩
    rw [link_of_fat_eq hrew.fat_eq]
    have hlist : ∀ dir, g.IsDir mid dir → ∀ spot, g.listings d' dir spot =
        if dir = first ∧ spot = index then some ⟨true, new⟩ else g.listings mid dir spot := by
      intro dir hdir spot
      rw [listings_changed (or_iff_not_imp_right.mpr (hsame dir hdir)) hplace spot,
        bind_some, hheld]
    have hfree : g.listings mid first index = none := by
      rw [listings, hvac, bind_none]
    -- the cluster of the new directory is as it was put aside
    have hslots : g.dirSlots d' new = g.dirSlots d new := by
      apply dirSlots_congr hchain (hrew.chain hnewChain)
      intro c hc
      rw [hrew.data_same c fun hmem => hapart hc hmem, hnewData c hc]
    exact ChainTable.Consistent.handOver hroom.sound.chains hdir' hfree hlist fun _ spot => by
      rw [listings_congr hslots, hempty]

end NexOS.Fat32.Geometry
