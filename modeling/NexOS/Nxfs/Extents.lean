import NexOS.Nxfs.Image

/-! # The blocks of an inode

An inode lists its blocks in the order of its extents. As long as the block
numbers fit in 32 bits, the logical block `n` is the entry `n` of that list, and
growing an inode adds to the list.
-/

namespace NexOS.Nxfs

open List Nat

/-- The blocks of an extent. -/
def Extent.blocks (extent : Extent) : List Nat := List.range' extent.start extent.len

variable {i : Nat} {extent : Extent}

@[simp] lemma Extent.mem_blocks {block : Nat} :
    block ∈ extent.blocks ↔ extent.start ≤ block ∧ block < extent.start + extent.len := by
  simp [blocks]

@[simp] lemma Extent.length_blocks (extent : Extent) : extent.blocks.length = extent.len := by
  simp [blocks]

/-! ## Replacing one element -/

lemma flatMap_set_append {α β : Type} {f : α → List β} {l : List α} {old new : α}
    {extra : List β} (hold : l[i]? = some old) (hnew : f new = f old ++ extra)
    (hlater : ∀ j x, i < j → l[j]? = some x → f x = []) :
    (l.set i new).flatMap f = l.flatMap f ++ extra := by
  induction l generalizing i with
  | nil => simp at hold
  | cons head rest ih =>
    cases i with
    | zero =>
      rw [getElem?_cons_zero, Option.some.injEq] at hold
      subst hold
      have hrest : rest.flatMap f = [] := by
        rw [flatMap_eq_nil_iff]
        intro x hx
        obtain ⟨j, hj⟩ := getElem?_of_mem hx
        exact hlater (j + 1) x (succ_pos j) (by rwa [getElem?_cons_succ])
      rw [set_cons_zero, flatMap_cons, flatMap_cons, hnew, hrest]
      simp
    | succ i =>
      rw [set_cons_succ, flatMap_cons, flatMap_cons, append_assoc, ih hold]
      intro j x hlt hx
      exact hlater (j + 1) x (succ_lt_succ hlt) (by rwa [getElem?_cons_succ])

lemma flatMap_set_perm {α β : Type} {f : α → List β} {l : List α} {old new : α} {extra : List β}
    (hold : l[i]? = some old) (hnew : f new = f old ++ extra) :
    ((l.set i new).flatMap f).Perm (l.flatMap f ++ extra) := by
  induction l generalizing i with
  | nil => simp at hold
  | cons head rest ih =>
    cases i with
    | zero =>
      rw [getElem?_cons_zero, Option.some.injEq] at hold
      subst hold
      rw [set_cons_zero, flatMap_cons, flatMap_cons, hnew, append_assoc, append_assoc]
      exact List.Perm.append_left _ perm_append_comm
    | succ i =>
      rw [set_cons_succ, flatMap_cons, flatMap_cons, append_assoc]
      exact List.Perm.append_left _ (ih hold)

namespace Inode

/-- The blocks of an inode, in the order of the file. -/
def blocks (inode : Inode) : List Nat := inode.extents.flatMap Extent.blocks

/-- The blocks that an inode in use holds. -/
def held (inode : Inode) : List Nat := if inode.used ≠ 0 then inode.blocks else []

/-- The blocks of the inode are distinct and below a limit that fits in 32 bits. -/
structure Bounded (inode : Inode) (limit : Nat) : Prop where
  nodup : inode.blocks.Nodup
  below : ∀ block ∈ inode.blocks, block < limit
  small : limit < wordLimit

variable {inode : Inode} {limit : Nat} {inode' : Inode} {last : Nat}

lemma length_blocks (inode : Inode) : inode.blocks.length = (inode.extents.map Extent.len).sum := by
  unfold blocks
  rw [length_flatMap]
  congr 2
  funext extent
  exact extent.length_blocks

variable (hbound : inode.Bounded limit)

include hbound

lemma Bounded.congr (hblocks : inode'.blocks = inode.blocks) : inode'.Bounded limit where
  nodup := hblocks ▸ hbound.nodup
  below := hblocks ▸ hbound.below
  small := hbound.small

lemma Bounded.length_le : inode.blocks.length ≤ limit := by
  have hsubset : inode.blocks ⊆ List.range limit := fun block hblock =>
    mem_range.mpr (hbound.below block hblock)
  have hle := (hbound.nodup.subperm hsubset).length_le
  rwa [length_range] at hle

/-- The block count of a bounded inode does not wrap. -/
lemma Bounded.blockCount : inode.blockCount = inode.blocks.length := by
  have hlen := hbound.length_le
  have hsmall := hbound.small
  unfold Inode.blockCount
  rw [← length_blocks, mod_eq_of_lt (by omega)]

lemma Bounded.extent_end (hext : extent ∈ inode.extents)
    (hlen : extent.len ≠ 0) : extent.start + extent.len ≤ limit := by
  have hlast : extent.start + (extent.len - 1) ∈ inode.blocks :=
    mem_flatMap.mpr ⟨extent, hext, Extent.mem_blocks.mpr (by omega)⟩
  have hlt := hbound.below _ hlast
  omega

/-- Storing a bounded inode keeps its blocks. -/
lemma Bounded.blocks_wrapped : inode.wrapped.blocks = inode.blocks := by
  have hsmall := hbound.small
  have hlimit : wordLimit = 2 ^ 32 := rfl
  unfold blocks wrapped
  rw [flatMap_map]
  apply flatMap_congr
  intro extent hext
  by_cases hlen : extent.len = 0
  · simp [Extent.blocks, hlen]
  · have hend := hbound.extent_end hext hlen
    rw [mod_eq_of_lt (by omega), mod_eq_of_lt (by omega)]

lemma Bounded.held_wrapped (hused : inode.used % 2 ^ 32 ≠ 0) :
    inode.wrapped.held = inode.blocks := by
  rw [held, if_pos (show inode.wrapped.used ≠ 0 from hused), hbound.blocks_wrapped]

omit hbound

/-! ## Logical blocks -/

lemma physicalFrom_eq {extents : List Extent} {base logical : Nat} (hbase : base ≤ logical)
    (hsum : base + (extents.map Extent.len).sum < wordLimit)
    (hsmall : ∀ block ∈ extents.flatMap Extent.blocks, block < wordLimit) :
    physicalFrom logical extents base =
      ((extents.flatMap Extent.blocks)[logical - base]?).filter (· < 2 ^ 31) := by
  induction extents generalizing base with
  | nil => simp [physicalFrom]
  | cons extent rest ih =>
    rw [map_cons, sum_cons] at hsum
    have hwrap : (base + extent.len) % wordLimit = base + extent.len := mod_eq_of_lt (by omega)
    unfold physicalFrom
    rw [hwrap, flatMap_cons]
    by_cases hlt : logical < base + extent.len
    · have hindex : logical - base < extent.blocks.length := by
        rw [Extent.length_blocks]
        omega
      have hphys : extent.start + (logical - base) < wordLimit := by
        refine hsmall _ (mem_flatMap.mpr ⟨extent, mem_cons_self, ?_⟩)
        exact Extent.mem_blocks.mpr (by omega)
      have hget : extent.blocks[logical - base]? = some (extent.start + (logical - base)) := by
        rw [getElem?_eq_getElem hindex]
        simp [Extent.blocks]
      rw [if_pos hlt, getElem?_append_left hindex, hget, mod_eq_of_lt hphys, Option.filter_some]
      simp
    · have hindex : logical - base - extent.len = logical - (base + extent.len) := by omega
      rw [if_neg hlt, ih (by omega) (by omega), getElem?_append_right, Extent.length_blocks, hindex]
      · rw [Extent.length_blocks]
        omega
      · intro block hblock
        exact hsmall block (mem_append_right _ hblock)

/-- The logical block `n` is the block `n` of the list. -/
lemma Bounded.logicalToPhysical (hbound : inode.Bounded limit) (logical : Nat) :
    inode.logicalToPhysical logical = (inode.blocks[logical]?).filter (· < 2 ^ 31) := by
  have hlen := hbound.length_le
  have hsmall := hbound.small
  unfold Inode.logicalToPhysical
  rw [physicalFrom_eq (zero_le _)]
  · rfl
  · rw [← length_blocks]
    omega
  · exact fun block hblock => lt_trans (hbound.below block hblock) hsmall

/-! ## Growing -/

lemma getElem?_extents (inode : Inode) (hi : i < extentCount) :
    inode.extents[i]? = some (inode.extents.getD i ⟨0, 0⟩) := by
  have hlen : i < inode.extents.length := by
    rw [inode.extents_length]
    exact hi
  rw [getD_eq_getElem?_getD, getElem?_eq_getElem hlen]
  rfl

lemma getD_mem_extents (inode : Inode) (hi : i < extentCount) :
    inode.extents.getD i ⟨0, 0⟩ ∈ inode.extents :=
  mem_of_getElem? (inode.getElem?_extents hi)

lemma lastExtent_eq_some (inode : Inode) (hlast : inode.lastExtent = some last) :
    last < extentCount ∧ (inode.extents.getD last ⟨0, 0⟩).len ≠ 0 ∧
      ∀ j, last < j → j < extentCount → (inode.extents.getD j ⟨0, 0⟩).len = 0 := by
  unfold lastExtent at hlast
  rw [find?_eq_some_iff_append] at hlast
  obtain ⟨hlen, before, after, hsplit, hbefore⟩ := hlast
  have hmem : ∀ j, j ∈ before ++ last :: after ↔ j < extentCount := by
    intro j
    rw [← hsplit, mem_reverse, mem_range]
  have hsorted : (before ++ last :: after).Pairwise (· > ·) := by
    rw [← hsplit, pairwise_reverse]
    exact pairwise_lt_range
  rw [pairwise_append, pairwise_cons] at hsorted
  refine ⟨(hmem last).mp (by simp), by simpa using hlen, fun j hgt hj => ?_⟩
  rcases mem_append.mp ((hmem j).mpr hj) with hj | hj
  · simpa using hbefore j hj
  · rcases mem_cons.mp hj with rfl | hj
    · exact absurd hgt (lt_irrefl j)
    · exact absurd (hsorted.2.1.1 j hj) (not_lt_of_gt hgt)

lemma lastExtent_eq_none (inode : Inode) (hlast : inode.lastExtent = none) :
    ∀ i < extentCount, (inode.extents.getD i ⟨0, 0⟩).len = 0 := by
  intro i hi
  unfold lastExtent at hlast
  rw [find?_eq_none] at hlast
  simpa using hlast i (mem_reverse.mpr (mem_range.mpr hi))

lemma lastExtent_of_later (inode : Inode) (hlt : last < extentCount)
    (hlen : (inode.extents.getD last ⟨0, 0⟩).len ≠ 0)
    (hlater : ∀ j, last < j → j < extentCount → (inode.extents.getD j ⟨0, 0⟩).len = 0) :
    inode.lastExtent = some last := by
  rcases hlast : inode.lastExtent with _ | other
  · exact absurd (inode.lastExtent_eq_none hlast last hlt) hlen
  obtain ⟨hlt', hlen', hlater'⟩ := inode.lastExtent_eq_some hlast
  rcases lt_trichotomy last other with h | rfl | h
  · exact absurd (hlater other h hlt') hlen'
  · rfl
  · exact absurd (hlater' last h hlt) hlen

lemma freeSlot_eq_some (inode : Inode) {slot : Nat} (hslot : inode.freeSlot = some slot) :
    slot < extentCount ∧ (inode.extents.getD slot ⟨0, 0⟩).len = 0 := by
  exact ⟨mem_range.mp (mem_of_find?_eq_some hslot), by simpa using find?_some hslot⟩

/-- The end of the last extent does not wrap. -/
lemma Bounded.extentEnd (hbound : inode.Bounded limit) (hlast : inode.lastExtent = some last) :
    inode.extentEnd last =
        (inode.extents.getD last ⟨0, 0⟩).start + (inode.extents.getD last ⟨0, 0⟩).len ∧
      inode.extentEnd last ≤ limit := by
  obtain ⟨hlt, hlen, -⟩ := inode.lastExtent_eq_some hlast
  have hend := hbound.extent_end (inode.getD_mem_extents hlt) hlen
  have hsmall := hbound.small
  have heq : inode.extentEnd last =
      (inode.extents.getD last ⟨0, 0⟩).start + (inode.extents.getD last ⟨0, 0⟩).len :=
    mod_eq_of_lt (by omega)
  exact ⟨heq, heq ▸ hend⟩

/-- Growing the last extent appends to the list of blocks. -/
lemma Bounded.blocks_growExtent (hbound : inode.Bounded limit) {len : Nat}
    (hlast : inode.lastExtent = some last) (hend : inode.extentEnd last + len ≤ limit) :
    (inode.growExtent last len).blocks =
      inode.blocks ++ Extent.blocks ⟨inode.extentEnd last, len⟩ := by
  obtain ⟨hlt, -, hlater⟩ := inode.lastExtent_eq_some hlast
  obtain ⟨hextentEnd, -⟩ := hbound.extentEnd hlast
  have hsmall := hbound.small
  have hwrap : ((inode.extents.getD last ⟨0, 0⟩).len + len) % wordLimit =
      (inode.extents.getD last ⟨0, 0⟩).len + len := mod_eq_of_lt (by omega)
  refine flatMap_set_append (inode.getElem?_extents hlt) ?_ ?_
  · rw [hwrap, hextentEnd]
    unfold Extent.blocks
    rw [List.range'_append_1]
  intro j extent hgt hext
  have hj : j < extentCount := by
    rw [← inode.extents_length]
    exact (List.getElem?_eq_some_iff.mp hext).1
  have hzero := hlater j hgt hj
  rw [inode.getElem?_extents hj, Option.some.injEq] at hext
  rw [← hext, Extent.blocks, hzero]
  rfl

/-- A new extent adds its blocks. -/
lemma blocks_setExtent (inode : Inode) {slot : Nat} (hslot : inode.freeSlot = some slot)
    (extent : Extent) :
    (inode.setExtent slot extent).blocks.Perm (inode.blocks ++ extent.blocks) := by
  obtain ⟨hlt, hzero⟩ := inode.freeSlot_eq_some hslot
  refine flatMap_set_perm (inode.getElem?_extents hlt) ?_
  rw [show (inode.extents.getD slot ⟨0, 0⟩).blocks = [] by rw [Extent.blocks, hzero]; rfl]
  rfl

/-- The number of extents that are not used. -/
def slots (inode : Inode) : Nat := inode.extents.countP fun extent => extent.len = 0

lemma getD_setExtent (inode : Inode) (hi : i < extentCount) (extent : Extent) (j : Nat) :
    (inode.setExtent i extent).extents.getD j ⟨0, 0⟩ =
      if j = i then extent else inode.extents.getD j ⟨0, 0⟩ := by
  have hlen : i < inode.extents.length := by
    rw [inode.extents_length]
    exact hi
  unfold setExtent
  by_cases heq : j = i
  · subst heq
    simp [hlen]
  · rw [if_neg heq, getD_eq_getElem?_getD, getElem?_set_ne (Ne.symm heq), getD_eq_getElem?_getD]

lemma slots_setExtent (inode : Inode) (hi : i < extentCount) (hlen : extent.len ≠ 0) :
    (inode.setExtent i extent).slots +
        (if (inode.extents.getD i ⟨0, 0⟩).len = 0 then 1 else 0) = inode.slots := by
  have hlength : i < inode.extents.length := by
    rw [inode.extents_length]
    exact hi
  have hget : inode.extents.getD i ⟨0, 0⟩ = inode.extents[i] := by
    rw [getD_eq_getElem?_getD, getElem?_eq_getElem hlength]
    rfl
  have hsplit : inode.extents =
      inode.extents.take i ++ inode.extents[i] :: inode.extents.drop (i + 1) := by
    rw [← drop_eq_getElem_cons hlength, take_append_drop]
  show (inode.extents.set i extent).countP _ + _ = inode.extents.countP _
  rw [hget, set_eq_take_append_cons_drop, if_pos hlength]
  conv_rhs => rw [hsplit]
  rw [countP_append, countP_append, countP_cons, countP_cons]
  simp only [hlen, decide_eq_true_eq]
  exact add_assoc _ _ _

lemma freeSlot_eq_none_iff (inode : Inode) : inode.freeSlot = none ↔ inode.slots = 0 := by
  unfold freeSlot slots
  rw [List.find?_eq_none, List.countP_eq_zero]
  constructor
  · intro hnone extent hext
    obtain ⟨i, hi⟩ := List.getElem?_of_mem hext
    have hlt : i < extentCount := by
      rw [← inode.extents_length]
      exact (List.getElem?_eq_some_iff.mp hi).1
    have hlen := hnone i (List.mem_range.mpr hlt)
    rw [inode.getElem?_extents hlt, Option.some.injEq] at hi
    rwa [hi] at hlen
  · intro hnone i hi
    exact hnone _ (inode.getD_mem_extents (mem_range.mp hi))

/-- Only the extents differ. -/
def SameHeader (inode inode' : Inode) : Prop :=
  inode' = { inode with extents := inode'.extents, extents_length := inode'.extents_length }

lemma SameHeader.refl (inode : Inode) : inode.SameHeader inode := rfl

lemma SameHeader.trans {inode'' : Inode} (hfirst : inode.SameHeader inode')
    (hsnd : inode'.SameHeader inode'') : inode.SameHeader inode'' := by
  unfold SameHeader at *
  rw [hsnd, hfirst]

lemma SameHeader.used (hsame : inode.SameHeader inode') : inode'.used = inode.used := by
  rw [hsame]

lemma sameHeader_growExtent (inode : Inode) (index len : Nat) :
    inode.SameHeader (inode.growExtent index len) := rfl

/-- An appended extent joins the last one or fills a slot. -/
lemma Bounded.appendExtent (hbound : inode.Bounded limit) {start len : Nat}
    (hend : start + len ≤ limit) (happ : inode.appendExtent start len = some inode') :
    inode.SameHeader inode' ∧ inode'.blocks.Perm (inode.blocks ++ Extent.blocks ⟨start, len⟩) := by
  unfold Inode.appendExtent at happ
  split at happ
  · cases happ
  next hlen =>
    simp only at happ
    split at happ
    next last hmerged =>
      cases happ
      obtain ⟨hlast, hstart⟩ := Option.filter_eq_some_iff.mp hmerged
      rw [decide_eq_true_eq] at hstart
      rw [hbound.blocks_growExtent hlast (by omega), hstart]
      exact ⟨rfl, List.Perm.refl _⟩
    next slot hslot =>
      cases happ
      exact ⟨rfl, inode.blocks_setExtent hslot ⟨start, len⟩⟩
    · cases happ

end Inode

end NexOS.Nxfs
