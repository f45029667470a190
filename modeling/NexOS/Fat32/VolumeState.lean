import NexOS.Fat32.Listing
import NexOS.Fat32.VolumeSlots

/-! # Consistent volumes

The root directory and the entries of all directories hold chains of clusters. On a
consistent volume these chains end and do not meet, every cluster that is neither free nor
bad is on one of them, and the tables are copies of each other. The dot entries of a
directory hold nothing, since their chains are those of the directory and its parent.
-/

namespace NexOS.Fat32

open Function ChainTable

/-- An entry with the short name of a dot entry and no other name. -/
def Entry.isDot (entry : Entry) : Bool :=
  isDotName entry.file.name && (entry.raw = pad 11 [dot] || entry.raw = pad 11 [dot, dot])

/-- A dot entry answers to dot names only. -/
lemma Entry.isDotName_of_isDot {entry : Entry} (hdot : entry.isDot = true) :
    isDotName entry.file.name = true ∧ isDotName (formatName83 entry.raw) = true := by
  simp only [Entry.isDot, Bool.and_eq_true, Bool.or_eq_true, decide_eq_true_eq] at hdot
  refine ⟨hdot.1, ?_⟩
  rcases hdot.2 with hraw | hraw
  · rw [hraw]
    rfl
  · rw [hraw]
    rfl

namespace Geometry

/-- The chain that an entry holds. -/
def held (g : Geometry) (entry : Entry) : Option (Held Nat) :=
  if entry.isDot = false ∧ g.clusterIsData entry.file.firstCluster = true then
    some ⟨entry.file.isDir, entry.file.firstCluster⟩
  else none

/-- What the directories hold, by the index of the entry. -/
def listings (g : Geometry) (disk : Disk) : Listings Nat Nat :=
  fun dir index => (entryOf (g.dirSlots disk dir) index).bind g.held

/-- The volume is consistent, with one more chain that is put aside. -/
structure Sound (g : Geometry) (disk : Disk) (aside : Option Nat) : Prop where
  mirrored : g.Mirrored disk
  chains : ChainTable.Consistent (g.link disk) g.rootCluster (g.listings disk) aside

/-- The tables are equal, the chains of the root directory and of the entries of all
directories end and do not meet, and every cluster that is not free is on one of them. -/
def Consistent (g : Geometry) (disk : Disk) : Prop := g.Sound disk none

/-- A directory that can be reached from the root. -/
def IsDir (g : Geometry) (disk : Disk) (dir : Nat) : Prop :=
  Reach g.rootCluster (g.listings disk) dir

variable {g : Geometry} {d d' : Disk} {aside : Option Nat} {dir first : Nat} {cells : List Nat}
  {new : Nat} {holder : Holder Nat Nat}

lemma listings_congr (hslots : g.dirSlots d' dir = g.dirSlots d dir) :
    g.listings d' dir = g.listings d dir := by
  funext index
  rw [listings, listings, hslots]

lemma Sound.exists_chain (hsound : g.Sound d aside) (hdir : g.IsDir d dir) :
    ∃ cells, Chain (g.link d) dir cells :=
  ChainTable.Consistent.exists_chain hsound.chains hdir

/-- The directories stay directories if they list what they listed. -/
lemma isDir_congr (hsame : ∀ dir, g.IsDir d dir → g.listings d' dir = g.listings d dir) :
    g.IsDir d' dir ↔ g.IsDir d dir :=
  reach_congr fun dir hdir _ _ => by rw [hsame dir hdir]

/-- All the directories keep their slots. -/
def SameSlots (g : Geometry) (disk disk' : Disk) : Prop :=
  ∀ dir, g.IsDir disk dir → g.dirSlots disk' dir = g.dirSlots disk dir

lemma SameSlots.isDir_iff (hsame : g.SameSlots d d') :
    g.IsDir d' dir ↔ g.IsDir d dir :=
  isDir_congr fun dir hdir => listings_congr (hsame dir hdir)

/-! ## Allocation -/

/-- A cluster that is allocated is put aside. -/
lemma Sound.allocate (hsound : g.Sound d none) (halloc : Allocates g d new d') :
    g.Sound d' (some new) ∧ g.SameSlots d d' := by
  have hsame : g.SameSlots d d' := by
    intro dir hdir
    obtain ⟨cells, hchain⟩ := hsound.exists_chain hdir
    have hnew : ∀ c ∈ cells, c ≠ new := by
      rintro c hc rfl
      exact hchain.not_free hc halloc.wasFree
    apply dirSlots_congr hchain
    · exact hchain.congr fun c hc => by rw [halloc.link_eq, update_of_ne (hnew c hc)]
    · exact fun c hc => by rw [halloc.data_eq, update_of_ne (hnew c hc)]
  refine ⟨⟨halloc.mirrored hsound.mirrored, ?_⟩, hsame⟩
  refine ChainTable.Consistent.keep
    (ChainTable.Consistent.setAside hsound.chains halloc.wasFree ?_ ?_)
    fun dir hdir => listings_congr (hsame dir hdir)
  · exact fun c hc => by rw [halloc.link_eq, update_of_ne hc]
  · rw [halloc.link_eq, update_self]

/-! ## Growth -/

lemma entries_append_zeros {slots zeros : List Slot} (hzeros : ∀ slot ∈ zeros, slot.isEnd = true) :
    entries (slots ++ zeros) = entries slots :=
  entriesFrom_append_isEnd hzeros {} 0

/-- What is left of a volume when the chain of a holder has grown. -/
structure Grows (g : Geometry) (disk : Disk) (aside : Option Nat) (holder : Holder Nat Nat)
    (first : Nat) (cells : List Nat) (new : Nat) (disk' : Disk) : Prop where
  sound : g.Sound disk' aside
  chain : Chain (g.link disk') first (cells ++ [new])
  kept : ∀ {other second others}, Holds g.rootCluster (g.listings disk) aside other second →
    (other, second) ≠ (holder, first) → Chain (g.link disk) second others →
    Chain (g.link disk') second others ∧ ∀ c ∈ others, disk'.data c = disk.data c
  slots_grown : g.dirSlots disk' first =
    g.dirSlots disk first ++ List.replicate g.slotsPerCluster Slot.zero

/-- Other directories have the slots they had. -/
lemma Grows.slots_same
    (hgrows : Grows g d aside holder first cells new d') (hsound : g.Sound d aside)
    (hdir : g.IsDir d dir) (hne : dir ≠ first) : g.dirSlots d' dir = g.dirSlots d dir := by
  obtain ⟨others, hothers⟩ := hsound.exists_chain hdir
  obtain ⟨other, hother, -⟩ := @Reach.exists_holder _ _ _ _ aside _ hdir
  obtain ⟨hchain, hdata⟩ := hgrows.kept hother (fun heq => hne (Prod.mk.inj heq).2) hothers
  exact dirSlots_congr hothers hchain hdata

lemma clusterSlots_zero (hdata : d.data new = fun _ => 0) :
    g.clusterSlots d new = List.replicate g.slotsPerCluster Slot.zero := by
  rw [List.eq_replicate_iff]
  refine ⟨length_clusterSlots new, fun slot hslot => ?_⟩
  obtain ⟨i, -, rfl⟩ := List.mem_map.mp hslot
  funext b
  simp [slotAt, hdata, Slot.zero]

lemma Sound.grow {tail : Nat} (hsound : g.Sound d aside)
    (hholds : Holds g.rootCluster (g.listings d) aside holder first)
    (hchain : Chain (g.link d) first cells) (htail : tail ∈ cells) (hlast : g.link d tail = .last)
    (happs : Appends g d tail new d') : Grows g d aside holder first cells new d' := by
  have hnotNew : ∀ {other others}, Chain (g.link d) other others → ∀ c ∈ others, c ≠ new := by
    rintro other others hothers c hc rfl
    exact hothers.not_free hc happs.wasFree
  have hgrown : Chain (g.link d') first (cells ++ [new]) :=
    hchain.extend htail hlast (fun c hc hne => happs.link_same c hne (hnotNew hchain c hc))
      happs.link_tail happs.link_new
  have hdata : ∀ c, c ≠ new → d'.data c = d.data c := fun c hc => by
    rw [happs.data_eq, update_of_ne hc]
  have hkept : ∀ {other second others}, Holds g.rootCluster (g.listings d) aside other second →
      (other, second) ≠ (holder, first) → Chain (g.link d) second others →
      Chain (g.link d') second others ∧ ∀ c ∈ others, d'.data c = d.data c := by
    intro other second others hother hne hothers
    have hapart := hsound.chains.apart hother hholds hne hothers hchain
    refine ⟨hothers.congr fun c hc => happs.link_same c ?_ (hnotNew hothers c hc), fun c hc =>
      hdata c (hnotNew hothers c hc)⟩
    rintro rfl
    exact hapart hc htail
  have hslots : g.dirSlots d' first =
      g.dirSlots d first ++ List.replicate g.slotsPerCluster Slot.zero := by
    rw [dirSlots_of_chain hchain, dirSlots_of_chain hgrown, List.flatMap_append,
      List.flatMap_singleton, clusterSlots_zero (by rw [happs.data_eq, update_self])]
    congr 1
    exact List.flatMap_congr fun c hc => clusterSlots_congr (hdata c (hnotNew hchain c hc))
  have hextended : ChainTable.Consistent (g.link d') g.rootCluster (g.listings d) aside :=
    Partitioned.extend hsound.chains hholds hchain htail hlast happs.wasFree happs.link_same
      happs.link_tail happs.link_new
  refine ⟨⟨happs.mirrored hsound.mirrored, hextended.keep fun dir hdir => ?_⟩,
    hgrown, hkept, hslots⟩
  by_cases hne : dir = first
  · subst hne
    funext index
    rw [listings, listings, entryOf, entryOf, hslots, entries_append_zeros (replicate_zero_isEnd _)]
  · obtain ⟨others, hothers⟩ := hsound.exists_chain hdir
    obtain ⟨other, hother, -⟩ := @Reach.exists_holder _ _ _ _ aside _ hdir
    obtain ⟨hchain', hdata'⟩ := hkept hother (fun heq => hne (Prod.mk.inj heq).2) hothers
    exact listings_congr (dirSlots_congr hothers hchain' hdata')

/-! ## Changed slots -/

/-- The slots of the other directories stay the same. -/
lemma Sound.rewrite (hsound : g.Sound d aside) (hpar : g.IsDir d first)
    (hchain : Chain (g.link d) first cells) (hrew : Rewrites d cells d') :
    ∀ dir, g.IsDir d dir → dir ≠ first → g.dirSlots d' dir = g.dirSlots d dir := by
  intro dir hdir hne
  obtain ⟨others, hothers⟩ := hsound.exists_chain hdir
  have hapart := ChainTable.Consistent.dirs_apart hsound.chains hdir hpar hne hothers hchain
  exact dirSlots_congr hothers (hrew.chain hothers) fun c hc =>
    hrew.data_same c fun hmem => hapart hc hmem

lemma Mirrored.congr (hmirror : g.Mirrored d) (hfat : d'.fat = d.fat) : g.Mirrored d' := by
  intro table htable
  rw [hfat, hmirror table htable]

/-- What the directories list after an entry of one of them has changed. -/
lemma listings_changed {index : Nat} {new : Option Entry}
    (hsame : g.dirSlots d' dir = g.dirSlots d dir ∨ dir = first)
    (hchg : ∀ other, entryOf (g.dirSlots d' first) other =
      if other = index then new else entryOf (g.dirSlots d first) other) (other : Nat) :
    g.listings d' dir other =
      if dir = first ∧ other = index then new.bind g.held else g.listings d dir other := by
  by_cases hdir : dir = first
  · subst hdir
    rw [listings, hchg]
    split
    next hother =>
      rw [if_pos ⟨rfl, hother⟩]
    next hother =>
      rw [if_neg fun h => hother h.2]
      rfl
  · rw [if_neg fun h => hdir h.1, listings_congr (hsame.resolve_right hdir)]

/-- A directory is rewritten and what it lists stays the same. -/
lemma Sound.relist {index : Nat} {new : Option Entry} (hsound : g.Sound d aside)
    (hpar : g.IsDir d first) (hchain : Chain (g.link d) first cells)
    (hrew : Rewrites d cells d')
    (hchg : ∀ other, entryOf (g.dirSlots d' first) other =
      if other = index then new else entryOf (g.dirSlots d first) other)
    (hheld : new.bind g.held = g.listings d first index) : g.Sound d' aside := by
  have hsame := hsound.rewrite hpar hchain hrew
  refine ⟨hsound.mirrored.congr hrew.fat_eq, ?_⟩
  rw [link_of_fat_eq hrew.fat_eq]
  refine ChainTable.Consistent.keep hsound.chains fun dir hdir => ?_
  funext spot
  rw [listings_changed (or_iff_not_imp_right.mpr (hsame dir hdir)) hchg spot]
  split
  next hhere => rw [hhere.1, hhere.2, hheld]
  · rfl

end Geometry

end NexOS.Fat32
