import NexOS.Nxfs.Fragments

/-! # Packed extents

New blocks go into the first extent that is not in use. If no extent behind it is in use
either, they follow the blocks that the inode has, and growth leaves the number of each
block as it was. An inode with an unused extent before a used one gets them in between.
-/

namespace NexOS.Nxfs

namespace Inode

/-- No extent is in use behind one that is not. -/
def Packed (inode : Inode) : Prop :=
  ∀ j < extentCount, ∀ i < j, (inode.extents.getD i ⟨0, 0⟩).len = 0 →
    (inode.extents.getD j ⟨0, 0⟩).len = 0

instance (inode : Inode) : Decidable inode.Packed :=
  inferInstanceAs (Decidable (∀ j < extentCount, ∀ i < j, _ → _))

variable {inode inode' : Inode} {limit : Nat} (hpacked : inode.Packed)

include hpacked

/-- Only which extents are in use matters. -/
lemma Packed.congr (hsame : ∀ i < extentCount, (inode'.extents.getD i ⟨0, 0⟩).len = 0 ↔
      (inode.extents.getD i ⟨0, 0⟩).len = 0) : inode'.Packed := by
  intro j hj i hi hzero
  rw [hsame j hj]
  exact hpacked j hj i hi ((hsame i (hi.trans hj)).mp hzero)

lemma Packed.growExtent (hbound : inode.Bounded limit) {last len : Nat}
    (hlast : inode.lastExtent = some last) (hend : inode.extentEnd last + len ≤ limit) :
    (inode.growExtent last len).Packed := by
  obtain ⟨hlt, hlen, -⟩ := inode.lastExtent_eq_some hlast
  obtain ⟨hextentEnd, -⟩ := hbound.extentEnd hlast
  have hsmall := hbound.small
  refine hpacked.congr fun i hi => ?_
  rw [Inode.growExtent, getD_setExtent inode hlt]
  by_cases heq : i = last
  · subst heq
    rw [if_pos rfl]
    dsimp only
    rw [Nat.mod_eq_of_lt (by omega)]
    omega
  · rw [if_neg heq]

/-- The first unused extent comes after all that are used. -/
lemma Packed.setExtent {slot : Nat} (hslot : inode.freeSlot = some slot)
    (extent : Extent) (hlen : extent.len ≠ 0) :
    (inode.setExtent slot extent).Packed ∧
      (inode.setExtent slot extent).blocks = inode.blocks ++ extent.blocks := by
  obtain ⟨hlt, hzero⟩ := inode.freeSlot_eq_some hslot
  have hlater : ∀ j, slot < j → j < extentCount → (inode.extents.getD j ⟨0, 0⟩).len = 0 :=
    fun j hgt hj => hpacked j hj slot hgt hzero
  constructor
  · intro j hj i hi
    rw [getD_setExtent inode hlt, getD_setExtent inode hlt]
    split
    · exact fun hbad => absurd hbad hlen
    intro hzeroI
    have hle : slot ≤ i := by
      by_contra hbefore
      have hused := (List.find?_range_eq_some.mp hslot).2.2 i (by omega)
      rw [hzeroI] at hused
      exact absurd hused (by decide)
    rw [if_neg (by omega)]
    exact hlater j (by omega) hj
  · refine flatMap_set_append (inode.getElem?_extents hlt) ?_ fun j extent' hgt hext => ?_
    · rw [show (inode.extents.getD slot ⟨0, 0⟩).blocks = [] by rw [Extent.blocks, hzero]; rfl]
      rfl
    have hj : j < extentCount := by
      rw [← inode.extents_length]
      exact (List.getElem?_eq_some_iff.mp hext).1
    rw [inode.getElem?_extents hj, Option.some.injEq] at hext
    rw [← hext, Extent.blocks, hlater j hgt hj]
    rfl

/-- An appended extent follows the blocks that are there. -/
lemma Packed.appendExtent (hbound : inode.Bounded limit)
    {start len : Nat} (hend : start + len ≤ limit)
    (happ : inode.appendExtent start len = some inode') :
    inode'.Packed ∧ inode'.blocks = inode.blocks ++ Extent.blocks ⟨start, len⟩ := by
  unfold Inode.appendExtent at happ
  split at happ
  · cases happ
  next hlen =>
    simp only at happ
    split at happ
    next last hmerged =>
      cases happ
      obtain ⟨hlast, hstart⟩ := Option.filter_eq_some_iff.mp hmerged
      rw [decide_eq_true_eq] at hstart
      refine ⟨hpacked.growExtent hbound hlast (by omega), ?_⟩
      rw [hbound.blocks_growExtent hlast (by omega), hstart]
    next slot hslot =>
      cases happ
      exact hpacked.setExtent hslot ⟨start, len⟩ hlen
    · cases happ

end Inode

namespace Layout

variable {L : Layout} {d : Disk} {inode : Inode}

/-- From a packed inode, growth gives a packed one with the blocks in front. -/
def GrowsPacked (inode : Inode) (r : Option Inode) : Prop :=
  inode.Packed → ∀ inode', r = some inode' → inode'.Packed ∧ inode.blocks <+: inode'.blocks

lemma GrowsPacked.after {inode' : Inode} {gained : List Nat} {r : Option Inode}
    (hpacked' : inode'.Packed) (hblocks : inode'.blocks = inode.blocks ++ gained)
    (hrest : GrowsPacked inode' r) : GrowsPacked inode r := by
  intro _ last hlast
  obtain ⟨hpacked'', hprefix⟩ := hrest hpacked' last hlast
  rw [hblocks] at hprefix
  exact ⟨hpacked'', (List.prefix_append _ _).trans hprefix⟩

lemma keptByGrowth_packed (L : Layout) (need : Nat) :
    KeptByGrowth L need (fun _ inode r _ => GrowsPacked inode r)
      fun _ inode r _ => GrowsPacked inode r where
  full _ := by
    refine ⟨?_, ?_⟩ <;> rintro hpacked _ ⟨⟩ <;> exact ⟨hpacked, List.prefix_rfl⟩
  refused _ _ hrest := hrest
  stuck _ _ _ := nofun
  extended hholds _ hends hrest hpacked := by
    obtain ⟨gained, -, hgrown, -⟩ := hends.grown_holds hholds
    cases hends with
    | @grown last len _ hlast hlen hle hrun hlong htakes hzero =>
      have hend := (hrun (len - 1) (by omega)).1.2
      exact GrowsPacked.after (hpacked.growExtent hholds.bounded hlast
        (show _ + len ≤ L.totalBlocks by omega)) hgrown hrest hpacked
  added hholds _ hends hrest hpacked := by
    cases hends with
    | @done lost extent inode' _ happ hhdr hblocks hpos hle htakes hzero hexact =>
      have hrow := (htakes.free (extent.start + (extent.len - 1)) (List.mem_append_left _
        (Extent.mem_blocks.mpr (by omega)))).1.2
      obtain ⟨hpacked', hblocks'⟩ := hpacked.appendExtent hholds.bounded (by omega) happ
      exact GrowsPacked.after hpacked' hblocks' hrest hpacked
  failed _ _ _ := nofun

lemma ends_ensureBlocks_packed (hholds : L.Holds d inode) (hpacked : inode.Packed) (need : Nat) :
    (ensureBlocks L.toSuper inode need).Ends Disk.serve d fun r _ =>
      ∀ inode', r = some inode' → inode'.Packed ∧ inode.blocks <+: inode'.blocks := by
  unfold ensureBlocks
  rw [hholds.bounded.blockCount]
  exact ((keptByGrowth_packed L need).ends hholds (Nat.le_add_left _ _)).mono
    fun _ _ hgrows => hgrows hpacked

end Layout

end NexOS.Nxfs
