import NexOS.Nxfs.Space

/-! # Growing a file

`nxfs_ensure_blocks` takes free blocks, marks and zeroes them, and adds them to
a copy of the inode. When it fails, the blocks taken before stay marked although
no inode names them.
-/

namespace NexOS.Nxfs

open Extent Nat Program.Ends Disk Function List Program

namespace Layout

variable (L : Layout)
  {inode : Inode} {taken lost : List Nat} {start len block chunk need : Nat}

/-- Free blocks are marked and may be overwritten. Nothing else changes. -/
structure Takes (d d' : Disk) (taken : List Nat) : Prop where
  free : ∀ block ∈ taken, L.Free (L.bitAt d) block
  nodup : taken.Nodup
  bits : ∀ block < L.totalBlocks, L.bitAt d' block = (L.bitAt d block || decide (block ∈ taken))
  inodes : ∀ index < maxInodes, L.inodeAt d' index = L.inodeAt d index
  data : ∀ block, L.InData block → block ∉ taken → d' (UInt32.ofNat block) = d (UInt32.ofNat block)

/-- The blocks of an inode are distinct, lie in the data region and are marked. -/
structure Holds (d : Disk) (inode : Inode) : Prop where
  nodup : inode.blocks.Nodup
  inside : ∀ block ∈ inode.blocks, L.InData block ∧ L.bitAt d block = true

/-- The blocks are filled with zeros. -/
def Zeroed (d : Disk) (blocks : List Nat) : Prop :=
  ∀ block ∈ blocks, d (UInt32.ofNat block) = zeroBlock

variable {L} {d d' d'' : Disk} {inode' : Inode} {r : Option (Option Extent)}

lemma InData.small (hdata : L.InData block) : block < wordLimit :=
  lt_trans hdata.2 L.total_small

/-! ## Taking blocks -/

lemma takes_refl (L : Layout) (d : Disk) : L.Takes d d [] where
  free _ h := by cases h
  nodup := nodup_nil
  bits _ _ := by simp
  inodes _ _ := rfl
  data _ _ _ := rfl

lemma Takes.trans {first second : List Nat} (hfirst : L.Takes d d' first)
    (hsnd : L.Takes d' d'' second) : L.Takes d d'' (first ++ second) := by
  have hfree : ∀ block ∈ second, L.Free (L.bitAt d) block ∧ block ∉ first := by
    intro block hblock
    obtain ⟨hdata, hclear⟩ := hsnd.free block hblock
    rw [hfirst.bits block hdata.2, Bool.or_eq_false_iff, decide_eq_false_iff_not] at hclear
    exact ⟨⟨hdata, hclear.1⟩, hclear.2⟩
  refine ⟨?_, ?_, ?_, ?_, ?_⟩
  · intro block hblock
    rcases mem_append.mp hblock with hblock | hblock
    · exact hfirst.free block hblock
    · exact (hfree block hblock).1
  · exact List.Nodup.append hfirst.nodup hsnd.nodup
      fun block hleft hright => (hfree block hright).2 hleft
  · intro block hblock
    rw [hsnd.bits block hblock, hfirst.bits block hblock, Bool.or_assoc]
    simp
  · intro index hindex
    rw [hsnd.inodes index hindex, hfirst.inodes index hindex]
  · intro block hdata hnot
    rw [mem_append, not_or] at hnot
    rw [hsnd.data block hdata hnot.2, hfirst.data block hdata hnot.1]

lemma Takes.perm {taken' : List Nat} (htakes : L.Takes d d' taken)
    (hperm : taken.Perm taken') : L.Takes d d' taken' where
  free block hblock := htakes.free block (hperm.mem_iff.mpr hblock)
  nodup := hperm.nodup_iff.mp htakes.nodup
  bits block hblock := by
    rw [htakes.bits block hblock]
    simp only [hperm.mem_iff]
  inodes := htakes.inodes
  data block hdata hnot := htakes.data block hdata fun hmem => hnot (hperm.mem_iff.mp hmem)

lemma mem_freeRun {bits : Nat → Bool} (hrun : L.FreeRun bits start len)
    (hblock : block ∈ Extent.blocks ⟨start, len⟩) : L.Free bits block := by
  obtain ⟨hle, hlt⟩ : start ≤ block ∧ block < start + len := mem_blocks.mp hblock
  have hfree := hrun (block - start) (by omega)
  rwa [Nat.add_sub_cancel' hle] at hfree

/-- Marking a free run takes its blocks. -/
lemma Marks.takes (hrun : L.FreeRun (L.bitAt d) start len)
    (hmarks : L.Marks d d' (Super.setRun (L.bitAt d) start len true)) :
    L.Takes d d' (Extent.blocks ⟨start, len⟩) where
  free _ := mem_freeRun hrun
  nodup := nodup_range'
  bits block hblock := by
    rw [hmarks.bits block hblock, Super.setRun]
    split
    next hin => simp [hin]
    next hout => simp [hout]
  inodes _ := hmarks.inodes
  data block hdata _ := hmarks.data block hdata.1 (InData.small hdata)

/-- A free run that is marked and cleared again is not taken. -/
lemma Marks.undo (hrun : L.FreeRun (L.bitAt d) start len)
    (hmarks : L.Marks d d' (Super.setRun (L.bitAt d) start len true))
    (hclear : L.Marks d' d'' (Super.setRun (L.bitAt d') start len false)) :
    L.Takes d d'' [] where
  free _ h := by cases h
  nodup := nodup_nil
  bits block hblock := by
    rw [hclear.bits block hblock, Super.setRun]
    split
    next hin =>
      have hfree := mem_freeRun hrun (mem_blocks.mpr hin)
      simp [hfree.2]
    next hout =>
      rw [hmarks.bits block hblock, Super.setRun, if_neg hout]
      simp
  inodes _ hindex := (hclear.inodes hindex).trans (hmarks.inodes hindex)
  data block hdata _ := (hmarks.data.trans hclear.data) block hdata.1 (InData.small hdata)

/-- Taken blocks may be written. -/
lemma Takes.write (htakes : L.Takes d d' taken) (hblock : block ∈ taken) (data : Block) :
    L.Takes d (update d' (UInt32.ofNat block) data) taken := by
  have hdata := (htakes.free block hblock).1
  have hsame : L.SameMeta d' (update d' (UInt32.ofNat block) data) := L.sameMeta_of_agree
      (agree_update d' data (InData.small hdata) L.dataStart_small (.inr hdata.1))
  refine ⟨htakes.free, htakes.nodup, ?_, ?_, ?_⟩
  · intro other hother
    rw [hsame.bits other hother, htakes.bits other hother]
  · intro index hindex
    rw [hsame.inodes index hindex, htakes.inodes index hindex]
  · intro other hother hnot
    rw [update_of_ne, htakes.data other hother hnot]
    rw [ne_eq, ofNat_inj (InData.small hother) (InData.small hdata)]
    rintro rfl
    exact hnot hblock

lemma Zeroed.write {blocks : List Nat} (hzero : Zeroed d blocks) (block : UInt32) :
    Zeroed (update d block zeroBlock) blocks := by
  intro other hother
  by_cases heq : UInt32.ofNat other = block
  · rw [heq, update_self]
  · rw [update_of_ne heq, hzero other hother]

/-- Blocks taken later are not among those taken before. -/
lemma Zeroed.after {blocks first second : List Nat} (hzero : Zeroed d' blocks)
    (hblocks : ∀ block ∈ blocks, block ∈ first) (hfirst : L.Takes d d' first)
    (hsnd : L.Takes d' d'' second) : Zeroed d'' blocks := by
  intro block hblock
  have hmem := hblocks block hblock
  have hdata := (hfirst.free block hmem).1
  rw [hsnd.data block hdata, hzero block hblock]
  intro hlater
  have hclear := (hsnd.free block hlater).2
  rw [hfirst.bits block hdata.2, decide_eq_true hmem, Bool.or_true] at hclear
  cases hclear

/-! ## Inodes that hold their blocks -/

lemma Holds.bounded (hholds : L.Holds d inode) : inode.Bounded L.totalBlocks where
  nodup := hholds.nodup
  below block hblock := (hholds.inside block hblock).1.2
  small := L.total_small

lemma holds_of_nil (L : Layout) (d : Disk) (hnil : inode.blocks = []) : L.Holds d inode where
  nodup := by rw [hnil]; exact nodup_nil
  inside block hblock := by rw [hnil] at hblock; cases hblock

/-- An inode that gains taken blocks holds them. -/
lemma Holds.gain {gained : List Nat} (hholds : L.Holds d inode)
    (htakes : L.Takes d d' (gained ++ lost))
    (hblocks : inode'.blocks.Perm (inode.blocks ++ gained)) : L.Holds d' inode' := by
  refine ⟨?_, ?_⟩
  · rw [hblocks.nodup_iff]
    refine List.Nodup.append hholds.nodup (List.Nodup.of_append_left htakes.nodup) ?_
    intro block hheld hgain
    have hclear := (htakes.free block (mem_append_left lost hgain)).2
    rw [(hholds.inside block hheld).2] at hclear
    cases hclear
  · intro block hblock
    rcases mem_append.mp (hblocks.mem_iff.mp hblock) with hheld | hgain
    · obtain ⟨hdata, hset⟩ := hholds.inside block hheld
      rw [htakes.bits block hdata.2, hset]
      exact ⟨hdata, rfl⟩
    · have hmem := mem_append_left lost hgain
      obtain ⟨hdata, -⟩ := htakes.free block hmem
      rw [htakes.bits block hdata.2, decide_eq_true hmem, Bool.or_true]
      exact ⟨hdata, rfl⟩

/-! ## Zeroing -/

/-- The blocks from `start` on are zeroed; they were taken before. -/
lemma exec_zeroBlocks {count : Nat} (htakes : L.Takes d d' taken)
    (hin : ∀ block ∈ Extent.blocks ⟨start, count⟩, block ∈ taken) :
    ∃ d'', (zeroBlocks count start).exec serve d' = (some (), d'') ∧
      L.Takes d d'' taken ∧ Zeroed d'' (Extent.blocks ⟨start, count⟩) ∧
      ∀ blocks, Zeroed d' blocks → Zeroed d'' blocks := by
  induction count generalizing start d' with
  | zero => exact ⟨d', rfl, htakes, fun _ h => by simp [Extent.blocks] at h, fun _ h => h⟩
  | succ count ih =>
    have hwrite := htakes.write (hin start mem_cons_self) zeroBlock
    obtain ⟨d'', hexec, htakes', hzero, hkeep⟩ :=
      ih hwrite fun block hblock => hin block (mem_cons_of_mem start hblock)
    refine ⟨d'', ?_, htakes', ?_, fun blocks hblocks => hkeep blocks (hblocks.write _)⟩
    · exact hexec
    have hstart : Zeroed d'' [start] := by
      apply hkeep
      intro block hblock
      rw [mem_singleton.mp hblock, update_self]
    intro block hblock
    rcases mem_cons.mp hblock with rfl | hblock
    · exact hstart block (mem_singleton.mpr rfl)
    · exact hzero block hblock

/-- How zeroing a row of logical blocks ends: it stops only at a block number
that is negative as an `int`. -/
structure ZeroEnds (layout : Layout) (d d' : Disk) (taken row : List Nat) (r : Option Unit)
    (d'' : Disk) : Prop where
  takes : layout.Takes d d'' taken
  stuck : r = none → ¬layout.IntSized
  zeroed : r = some () → Zeroed d'' row
  kept : ∀ blocks, Zeroed d' blocks → Zeroed d'' blocks

lemma ends_zeroLogical {row : List Nat} {count logical : Nat}
    (hbound : inode.Bounded L.totalBlocks) (htakes : L.Takes d d' taken)
    (hrow : inode.blocks.drop logical = row) (hcount : row.length = count)
    (hin : ∀ block ∈ row, block ∈ taken) :
    (zeroLogical inode count logical).Ends serve d' (L.ZeroEnds d d' taken row) := by
  induction count generalizing logical row d' with
  | zero =>
    rw [length_eq_zero_iff] at hcount
    subst hcount
    refine ⟨htakes, ?_, ?_, fun _ h => h⟩
    · intro hnone
      cases hnone
    · intro _ block hblock
      cases hblock
  | succ count ih =>
    rcases row with _ | ⟨physical, rest⟩
    · cases hcount
    have hget : inode.blocks[logical]? = some physical := by
      rw [← head?_drop, hrow]
      rfl
    have hrest : inode.blocks.drop (logical + 1) = rest := by
      rw [← tail_drop, hrow]
      rfl
    have hmem := hin physical mem_cons_self
    have hwrite := htakes.write hmem zeroBlock
    have hlogical := hbound.logicalToPhysical logical
    rw [hget, Option.filter_some] at hlogical
    refine ends_ofOption_bind ?_ ?_
    · intro hnone
      have hbig : ¬physical < 2 ^ 31 := by
        intro hsmall
        rw [hlogical, if_pos (decide_eq_true hsmall)] at hnone
        cases hnone
      have hlt := (htakes.free physical hmem).1.2
      exact ⟨htakes, fun _ hsized => hbig (hsized.lt hlt), nofun, fun _ h => h⟩
    intro block hsome
    have hblock : block = physical := by
      rw [hlogical] at hsome
      split at hsome
      · exact (Option.some.inj hsome).symm
      · cases hsome
    subst hblock
    refine (ih hwrite hrest (Nat.succ.inj hcount)
      fun other hother => hin other (mem_cons_of_mem block hother)).mono ?_
    intro r d'' hends
    refine ⟨hends.takes, hends.stuck, ?_, fun blocks h => hends.kept blocks (h.write _)⟩
    intro hr other hother
    rcases mem_cons.mp hother with rfl | hother
    · refine hends.kept [other] ?_ other (mem_singleton.mpr rfl)
      intro same hsame
      rw [mem_singleton.mp hsame, update_self]
    · exact hends.zeroed hr other hother

/-! ## Extending the last extent -/

lemma exec_tryExtend_none (hlast : inode.lastExtent = none) (len : Nat) (d : Disk) :
    (tryExtendLastExtent L.toSuper inode len).exec serve d = (none, d) := by
  unfold tryExtendLastExtent
  by_cases hlen : len ≠ 0
  · simp only [exec_bind, exec_require, if_pos hlen, hlast, exec_ofOption]
  · simp only [exec_bind, exec_require, if_neg hlen]

/-- The last extent grows exactly when the blocks after it are a free run. -/
lemma exec_tryExtend {last : Nat} (hlast : inode.lastExtent = some last) (hlen : len ≠ 0)
    (d : Disk) :
    (¬L.FreeRun (L.bitAt d) (inode.extentEnd last) len ∧
      (tryExtendLastExtent L.toSuper inode len).exec serve d = (none, d)) ∨
    (L.FreeRun (L.bitAt d) (inode.extentEnd last) len ∧
      ∃ d', (tryExtendLastExtent L.toSuper inode len).exec serve d =
          (some (inode.growExtent last len), d') ∧
        L.Marks d d' (Super.setRun (L.bitAt d) (inode.extentEnd last) len true)) := by
  unfold tryExtendLastExtent
  by_cases hrun : L.FreeRun (L.bitAt d) (inode.extentEnd last) len
  · right
    have hend := (hrun (len - 1) (by omega)).1.2
    have hroom : inode.extentEnd last < L.totalBlocks ∧
        len ≤ L.totalBlocks - inode.extentEnd last := by omega
    have hle : inode.extentEnd last + len ≤ L.totalBlocks := by omega
    obtain ⟨d', hexec, hmarks⟩ := exec_bitmapSetRange hlen hle true d
    refine ⟨hrun, d', ?_, hmarks⟩
    simp only [exec_bind, exec_require, if_pos hlen, hlast, exec_ofOption,
      if_pos hroom, exec_rangeIsFree hlen, decide_eq_true hrun, if_true, hexec, exec_pure]
  · left
    refine ⟨hrun, ?_⟩
    simp only [exec_bind, exec_require, if_pos hlen, hlast, exec_ofOption]
    by_cases hroom : inode.extentEnd last < L.totalBlocks ∧
        len ≤ L.totalBlocks - inode.extentEnd last
    · simp only [if_pos hroom, exec_rangeIsFree hlen, decide_eq_false hrun, Bool.false_eq_true,
        if_false]
    · simp only [if_neg hroom]

/-- How extending an inode of `blocks` blocks by at most `chunk` ends: the block
after it is not free, the longest free run after it is taken, or zeroing that
run stops at a block number that is negative as an `int`. -/
inductive Extends (layout : Layout) (d : Disk) (inode : Inode) (blocks chunk : Nat) :
    Option (Option (Inode × Nat)) → Disk → Prop where
  | refused (hnone : ∀ last len, inode.lastExtent = some last → len ≠ 0 → len ≤ chunk →
        ¬layout.FreeRun (layout.bitAt d) (inode.extentEnd last) len) :
      Extends layout d inode blocks chunk (some none) d
  | grown {last len : Nat} {d' : Disk} (hlast : inode.lastExtent = some last) (hlen : len ≠ 0)
      (hle : len ≤ chunk)
      (hrun : layout.FreeRun (layout.bitAt d) (inode.extentEnd last) len)
      (hlongest : ∀ longer, len < longer → longer ≤ chunk →
        ¬layout.FreeRun (layout.bitAt d) (inode.extentEnd last) longer)
      (htakes : layout.Takes d d' (Extent.blocks ⟨inode.extentEnd last, len⟩))
      (hzeroed : Zeroed d' (Extent.blocks ⟨inode.extentEnd last, len⟩)) :
      Extends layout d inode blocks chunk (some (some (inode.growExtent last len, blocks + len))) d'
  | stuck {taken : List Nat} {d' : Disk} (hbig : ¬layout.IntSized)
      (htakes : layout.Takes d d' taken) : Extends layout d inode blocks chunk none d'

lemma Extends.of_shorter {blocks : Nat} {r : Option (Option (Inode × Nat))}
    (hends : L.Extends d inode blocks chunk r d')
    (hnot : ∀ last, inode.lastExtent = some last →
      ¬L.FreeRun (L.bitAt d) (inode.extentEnd last) (chunk + 1)) :
    L.Extends d inode blocks (chunk + 1) r d' := by
  cases hends with
  | refused hnone =>
    refine .refused fun last len hlast hlen hle => ?_
    rcases lt_or_eq_of_le hle with hlt | rfl
    · exact hnone last len hlast hlen (le_of_lt_succ hlt)
    · exact hnot last hlast
  | @grown last len d' hlast hlen hle hrun hlong htakes hzero =>
    refine .grown hlast hlen (le_succ_of_le hle) hrun (fun longer hgt hle' => ?_) htakes hzero
    rcases lt_or_eq_of_le hle' with hlt | rfl
    · exact hlong longer hgt (le_of_lt_succ hlt)
    · exact hnot last hlast
  | stuck hbig htakes => exact .stuck hbig htakes

lemma ends_extendLargest (hholds : L.Holds d inode) (chunk : Nat) :
    (extendLargest L.toSuper inode inode.blocks.length chunk).Ends serve d
      (L.Extends d inode inode.blocks.length chunk) := by
  induction chunk with
  | zero => exact .refused fun last len _ hlen hle => absurd (le_zero.mp hle) hlen
  | succ chunk ih =>
    cases hlast : inode.lastExtent with
    | none =>
      refine bind_of_some (exec_attempt _ _ d) ?_
      rw [exec_tryExtend_none hlast]
      refine ih.mono fun r d' hends => hends.of_shorter fun last h => ?_
      rw [hlast] at h
      cases h
    | some last =>
      rcases exec_tryExtend hlast (succ_ne_zero chunk) d with
        ⟨hnot, hexec⟩ | ⟨hrun, d', hexec, hmarks⟩
      · refine bind_of_some (exec_attempt _ _ d) ?_
        rw [hexec]
        refine ih.mono fun r d' hends => hends.of_shorter fun other h => ?_
        rw [hlast, Option.some.injEq] at h
        subst h
        exact hnot
      refine bind_of_some (exec_attempt _ _ d) ?_
      rw [hexec]
      have hend := (hrun chunk (lt_succ_self chunk)).1.2
      have htakes := hmarks.takes hrun
      have hgrown := hholds.bounded.blocks_growExtent hlast
        (show inode.extentEnd last + (chunk + 1) ≤ L.totalBlocks by omega)
      have htakes' := htakes
      rw [← append_nil (Extent.blocks _)] at htakes'
      have hbound := (hholds.gain htakes' (.of_eq hgrown)).bounded
      refine bind (ends_zeroLogical hbound htakes ?_
        (length_blocks ⟨inode.extentEnd last, chunk + 1⟩) fun _ h => h) ?_ ?_
      · rw [hgrown, drop_left]
      · intro d'' hends
        exact .stuck (hends.stuck rfl) hends.takes
      · intro value d'' hends
        exact .grown hlast (succ_ne_zero chunk) le_rfl hrun
          (fun longer hgt hle => absurd hgt (Nat.not_lt_of_le hle)) hends.takes
          (hends.zeroed rfl)

/-! ## Adding an extent -/

/-- The longest free run of at most `chunk` blocks, and the first of that length. -/
structure Largest (layout : Layout) (bits : Nat → Bool) (chunk : Nat) (extent : Extent) : Prop where
  pos : extent.len ≠ 0
  le : extent.len ≤ chunk
  first : layout.FirstRun bits extent.len extent.start
  longest : ∀ longer, extent.len < longer → longer ≤ chunk →
    ∀ start, ¬layout.FreeRun bits start longer

/-- How allocating at most `chunk` blocks ends. Only on a volume whose block
numbers can be negative as an `int` are blocks lost on the way. -/
inductive AllocatesLargest (layout : Layout) (d : Disk) (chunk : Nat) :
    Option (Option Extent) → Disk → Prop where
  | none {lost : List Nat} {d' : Disk} (htakes : layout.Takes d d' lost)
      (hexact : layout.IntSized → lost = [] ∧
        ∀ len, len ≠ 0 → len ≤ chunk → ∀ start, ¬layout.FreeRun (layout.bitAt d) start len) :
      AllocatesLargest layout d chunk (some none) d'
  | found {lost : List Nat} {extent : Extent} {d₁ d' : Disk} (htakes : layout.Takes d d₁ lost)
      (hpos : extent.len ≠ 0) (hle : extent.len ≤ chunk)
      (hrun : layout.FreeRun (layout.bitAt d₁) extent.start extent.len)
      (hmarks : layout.Marks d₁ d' (Super.setRun (layout.bitAt d₁) extent.start extent.len true))
      (hexact : layout.IntSized → lost = [] ∧ layout.Largest (layout.bitAt d) chunk extent) :
      AllocatesLargest layout d chunk (some (some extent)) d'

/-- A longer run was asked for first, and was not there. -/
lemma AllocatesLargest.of_shorter (hends : L.AllocatesLargest d chunk r d')
    (hnot : L.IntSized → ∀ start, ¬L.FreeRun (L.bitAt d) start (chunk + 1)) :
    L.AllocatesLargest d (chunk + 1) r d' := by
  cases hends with
  | none htakes hexact =>
    refine .none htakes fun hsmall => ⟨(hexact hsmall).1, fun len hlen hle => ?_⟩
    rcases lt_or_eq_of_le hle with hlt | rfl
    · exact (hexact hsmall).2 len hlen (le_of_lt_succ hlt)
    · exact hnot hsmall
  | found htakes hpos hle hrun hmarks hexact =>
    refine .found htakes hpos (le_succ_of_le hle) hrun hmarks fun hsmall => ?_
    obtain ⟨hlost, hmax⟩ := hexact hsmall
    refine ⟨hlost, hpos, le_succ_of_le hle, hmax.first, fun longer hgt hle' => ?_⟩
    rcases lt_or_eq_of_le hle' with hlt | rfl
    · exact hmax.longest longer hgt (le_of_lt_succ hlt)
    · exact hnot hsmall

/-- Blocks that were lost before stay lost. -/
lemma AllocatesLargest.after (hbig : ¬L.IntSized)
    (htakes : L.Takes d d' lost) (hends : L.AllocatesLargest d' chunk r d'') :
    L.AllocatesLargest d chunk r d'' := by
  cases hends with
  | none htakes' _ => exact .none (htakes.trans htakes') fun hsmall => absurd hsmall hbig
  | found htakes' hpos hle hrun hmarks _ =>
    exact .found (htakes.trans htakes') hpos hle hrun hmarks fun hsmall => absurd hsmall hbig

lemma ends_allocLargest (L : Layout) (d : Disk) (chunk : Nat) :
    (allocLargest L.toSuper chunk).Ends serve d (L.AllocatesLargest d chunk) := by
  induction chunk generalizing d with
  | zero =>
    exact .none (takes_refl L d) fun _ =>
      ⟨rfl, fun len hlen hle => absurd (Nat.le_zero.mp hle) hlen⟩
  | succ chunk ih =>
    refine bind_attempt (ends_allocExtent (Nat.succ_ne_zero chunk) d) ?_
    intro r d' hends
    cases hends with
    | none hnone => exact (ih d).mono fun r d' h => h.of_shorter fun _ => hnone
    | @found start _ hfirst hmarks =>
      have hlast := (hfirst.free chunk (Nat.lt_succ_self chunk)).1.2
      by_cases hsmall : start < 2 ^ 31
      · rw [if_pos hsmall]
        have hmax : L.Largest (L.bitAt d) (chunk + 1) ⟨start, chunk + 1⟩ :=
          ⟨Nat.succ_ne_zero chunk, le_rfl, hfirst,
            fun longer hgt hle => absurd hgt (Nat.not_lt_of_le hle)⟩
        exact .found (takes_refl L d) hmax.pos hmax.le hfirst.free hmarks fun _ => ⟨rfl, hmax⟩
      · rw [if_neg hsmall]
        have hbig : ¬L.IntSized := fun hsized => hsmall (hsized.lt (by omega))
        exact (ih d').mono fun r d'' h =>
          (h.after hbig (hmarks.takes hfirst.free)).of_shorter fun hle => absurd hle hbig

/-- How adding an extent of at most `chunk` blocks ends. Up to `2 ^ 31` blocks,
the longest free run is added, unless there is none or the inode has no room for
another extent; then nothing is taken. -/
inductive Adds (layout : Layout) (d : Disk) (inode : Inode) (chunk : Nat) :
    Option (Inode × Nat) → Disk → Prop where
  | done {lost : List Nat} {extent : Extent} {inode' : Inode} {d' : Disk}
      (happend : inode.appendExtent extent.start extent.len = some inode')
      (hheader : inode.SameHeader inode')
      (hblocks : inode'.blocks.Perm (inode.blocks ++ extent.blocks)) (hpos : extent.len ≠ 0)
      (hle : extent.len ≤ chunk) (htakes : layout.Takes d d' (extent.blocks ++ lost))
      (hzeroed : Zeroed d' extent.blocks)
      (hexact : layout.IntSized → lost = [] ∧ layout.Largest (layout.bitAt d) chunk extent) :
      Adds layout d inode chunk (some (inode', extent.len)) d'
  | failed {lost : List Nat} {d' : Disk} (htakes : layout.Takes d d' lost)
      (hexact : layout.IntSized → lost = [] ∧
        ((∀ len, len ≠ 0 → len ≤ chunk → ∀ start, ¬layout.FreeRun (layout.bitAt d) start len) ∨
          ∃ extent, layout.Largest (layout.bitAt d) chunk extent ∧
            inode.appendExtent extent.start extent.len = none)) :
      Adds layout d inode chunk none d'

lemma ends_addExtent (hholds : L.Holds d inode) (chunk : Nat) :
    (addExtent L.toSuper inode chunk).Ends serve d (L.Adds d inode chunk) := by
  refine bind (ends_allocLargest L d chunk) ?_ ?_
  · intro d' hends
    cases hends
  intro value d' hends
  cases hends with
  | none htakes hexact =>
    exact .failed htakes fun hsmall => ⟨(hexact hsmall).1, .inl (hexact hsmall).2⟩
  | @found lost extent d₁ _ htakes hpos hle hrun hmarks hexact =>
    have hlast := (hrun (extent.len - 1) (by omega)).1.2
    have hend : extent.start + extent.len ≤ L.totalBlocks := by omega
    cases happ : inode.appendExtent extent.start extent.len with
    | none =>
      simp only [happ]
      obtain ⟨d'', hexec, hclear⟩ := exec_freeExtent hpos hend d'
      refine bind_of_some (exec_attempt _ _ d') ?_
      rw [hexec]
      have hundone := htakes.trans (hmarks.undo hrun hclear)
      rw [append_nil] at hundone
      exact .failed hundone fun hsmall =>
        ⟨(hexact hsmall).1, .inr ⟨extent, (hexact hsmall).2, happ⟩⟩
    | some inode' =>
      simp only [happ]
      obtain ⟨hhdr, hblocks⟩ := hholds.bounded.appendExtent hend happ
      have hall := (htakes.trans (hmarks.takes hrun)).perm perm_append_comm
      obtain ⟨d'', hexec, htakes', hzero, -⟩ :=
        exec_zeroBlocks hall fun block h => mem_append_left lost h
      refine bind_of_some (exec_attempt _ _ d') ?_
      rw [hexec]
      exact .done happ hhdr hblocks hpos hle htakes' hzero hexact

/-! ## The whole growth -/

/-- How growing an inode ends: it gains zeroed blocks, or only loses some. -/
inductive Grows (layout : Layout) (d : Disk) (inode : Inode) (needBlocks : Nat) :
    Option Inode → Disk → Prop where
  | done {gained lost : List Nat} {inode' : Inode} {d' : Disk} (hheader : inode.SameHeader inode')
      (hblocks : inode'.blocks.Perm (inode.blocks ++ gained))
      (hlength : inode'.blocks.length = max inode.blocks.length needBlocks)
      (htakes : layout.Takes d d' (gained ++ lost)) (hzeroed : Zeroed d' gained)
      (hexact : layout.IntSized → lost = []) :
      Grows layout d inode needBlocks (some inode') d'
  | failed {lost : List Nat} {d' : Disk} (htakes : layout.Takes d d' lost) :
      Grows layout d inode needBlocks none d'

lemma grows_refl (L : Layout) (d : Disk) (hneed : need ≤ inode.blocks.length) :
    L.Grows d inode need (some inode) d := by
  refine .done (.refl inode) (.of_eq (append_nil _).symm) ?_ (takes_refl L d) ?_ fun _ => rfl
  · rw [max_eq_left hneed]
  · intro block hblock
    cases hblock

/-- Growing goes on from an inode that has gained blocks already. -/
lemma Grows.after {gained : List Nat} {r : Option Inode}
    (hhdr : inode.SameHeader inode') (hblocks : inode'.blocks.Perm (inode.blocks ++ gained))
    (hneed : inode'.blocks.length ≤ need) (htakes : L.Takes d d' (gained ++ lost))
    (hzero : Zeroed d' gained) (hexact : L.IntSized → lost = [])
    (hgrows : L.Grows d' inode' need r d'') : L.Grows d inode need r d'' := by
  cases hgrows with
  | @done gained' lost' inode'' _ hhdr' hblocks' hlen' htakes' hzero' hexact' =>
    have hmid : (gained ++ lost ++ (gained' ++ lost')).Perm
        (gained ++ gained' ++ (lost ++ lost')) := by
      rw [append_assoc, append_assoc]
      refine List.Perm.append_left gained ?_
      rw [← append_assoc, ← append_assoc]
      exact List.Perm.append_right lost' perm_append_comm
    have hkept := hzero.after (fun block h => mem_append_left lost h) htakes htakes'
    refine .done (hhdr.trans hhdr') ?_ ?_ ((htakes.trans htakes').perm hmid) ?_ ?_
    · refine hblocks'.trans ?_
      rw [← append_assoc]
      exact hblocks.append_right gained'
    · have hlen := hblocks.length_eq
      rw [length_append] at hlen
      omega
    · intro block hblock
      rcases mem_append.mp hblock with hblock | hblock
      · exact hkept block hblock
      · exact hzero' block hblock
    · intro hsmall
      rw [hexact hsmall, hexact' hsmall]
      rfl
  | failed htakes' => exact .failed (htakes.trans htakes')

/-- The inode after an extension. -/
lemma Extends.grown_holds {blocks n : Nat} (hholds : L.Holds d inode)
    (hends : L.Extends d inode blocks chunk (some (some (inode', n))) d') :
    ∃ gained, inode.SameHeader inode' ∧ inode'.blocks = inode.blocks ++ gained ∧
      n = blocks + gained.length ∧ L.Takes d d' (gained ++ []) ∧ Zeroed d' gained ∧
      gained.length ≤ chunk ∧ L.Holds d' inode' := by
  cases hends with
  | @grown last len _ hlast hlen hle hrun hlong htakes hzero =>
    have hend := (hrun (len - 1) (by omega)).1.2
    have hgrown := hholds.bounded.blocks_growExtent hlast
      (show inode.extentEnd last + len ≤ L.totalBlocks by omega)
    rw [← append_nil (Extent.blocks _)] at htakes
    refine ⟨_, inode.sameHeader_growExtent last len, hgrown, ?_, htakes, hzero, ?_,
      hholds.gain htakes (.of_eq hgrown)⟩
    · rw [length_blocks]
    · rwa [length_blocks]

/-- What every growth keeps: `before` a round, and `after` the last extent was extended,
each with the way the growth ends from there. -/
structure KeptByGrowth (layout : Layout) (needBlocks : Nat)
    (before after : Disk → Inode → Option Inode → Disk → Prop) : Prop where
  full {d : Disk} {inode : Inode} (hneed : needBlocks ≤ inode.blocks.length) :
    before d inode (some inode) d ∧ after d inode (some inode) d
  refused {d d' : Disk} {inode : Inode} {r : Option Inode}
    (hmore : inode.blocks.length < needBlocks)
    (hends : layout.Extends d inode inode.blocks.length (needBlocks - inode.blocks.length)
      (some none) d) (hrest : after d inode r d') : before d inode r d'
  stuck {d d' : Disk} {inode : Inode} {taken : List Nat} (hbig : ¬layout.IntSized)
    (htakes : layout.Takes d d' taken) : before d inode none d'
  extended {d d' d'' : Disk} {inode inode' : Inode} {r : Option Inode} {n : Nat}
    (hholds : layout.Holds d inode) (hmore : inode.blocks.length < needBlocks)
    (hends : layout.Extends d inode inode.blocks.length (needBlocks - inode.blocks.length)
      (some (some (inode', n))) d') (hrest : after d' inode' r d'') : before d inode r d''
  added {d d' d'' : Disk} {inode inode' : Inode} {r : Option Inode} {added : Nat}
    (hholds : layout.Holds d inode) (hmore : inode.blocks.length < needBlocks)
    (hends : layout.Adds d inode (needBlocks - inode.blocks.length) (some (inode', added)) d')
    (hrest : before d' inode' r d'') : after d inode r d''
  failed {d d' : Disk} {inode : Inode} (hmore : inode.blocks.length < needBlocks)
    (hends : layout.Adds d inode (needBlocks - inode.blocks.length) none d') :
    after d inode none d'

lemma KeptByGrowth.ends {before after : Disk → Inode → Option Inode → Disk → Prop}
    (hkept : KeptByGrowth L need before after) {fuel : Nat}
    (hholds : L.Holds d inode) (hfuel : need ≤ inode.blocks.length + fuel) :
    (ensureLoop L.toSuper need fuel inode inode.blocks.length).Ends serve d (before d inode) := by
  induction fuel generalizing inode d with
  | zero => exact (hkept.full hfuel).1
  | succ fuel ih =>
    -- The round after the extension, from an inode that still needs blocks.
    have hround : ∀ {inode : Inode} {d : Disk}, L.Holds d inode →
        need ≤ inode.blocks.length + (fuel + 1) → inode.blocks.length < need →
        (addExtent L.toSuper inode (need - inode.blocks.length) >>= fun x =>
          ensureLoop L.toSuper need fuel x.1 (inode.blocks.length + x.2)).Ends
            serve d (after d inode) := by
      intro inode d hholds hfuel hmore
      refine bind (ends_addExtent hholds _) (fun _ => hkept.failed hmore) ?_
      intro value d' hends
      cases hends with
      | @done lost extent inode' _ happ hhdr hblocks hpos hle htakes hzero hexact =>
        have hlen := hblocks.length_eq
        rw [length_append, length_blocks] at hlen
        have hnext := ih (hholds.gain htakes hblocks)
          (show need ≤ inode'.blocks.length + fuel by omega)
        rw [hlen] at hnext
        exact hnext.mono fun r d'' => hkept.added hholds hmore
          (.done happ hhdr hblocks hpos hle htakes hzero hexact)
    unfold ensureLoop
    split
    next hmore =>
      refine bind (ends_extendLargest hholds _) ?_ ?_
      · intro d' hends
        cases hends with
        | stuck hbig htakes => exact hkept.stuck hbig htakes
      intro value d' hends
      cases value with
      | none =>
        obtain rfl : d' = d := by cases hends; rfl
        simp only [Option.getD_none]
        rw [if_neg (Nat.not_le_of_lt hmore)]
        exact (hround hholds hfuel hmore).mono fun r d'' => hkept.refused hmore hends
      | some value =>
        obtain ⟨inode', n⟩ := value
        obtain ⟨gained, -, hgrown, hn, -, -, -, hholds'⟩ := hends.grown_holds hholds
        have hlen := congrArg List.length hgrown
        rw [length_append, ← hn] at hlen
        simp only [Option.getD_some]
        rw [← hlen]
        split
        next hdone =>
          exact hkept.extended hholds hmore hends (hkept.full hdone).2
        next hdone =>
          exact (hround hholds' (by omega) (Nat.lt_of_not_le hdone)).mono fun r d'' =>
            hkept.extended hholds hmore hends
    next hmore =>
      exact (hkept.full (Nat.le_of_not_lt hmore)).1

lemma keptByGrowth_grows (L : Layout) (need : Nat) :
    KeptByGrowth L need (L.Grows · · need) (L.Grows · · need) where
  full hneed := ⟨grows_refl L _ hneed, grows_refl L _ hneed⟩
  refused _ _ hrest := hrest
  stuck _ htakes := .failed htakes
  extended hholds hmore hends hrest := by
    obtain ⟨gained, hhdr, hgrown, -, htakes, hzero, hle, -⟩ := hends.grown_holds hholds
    have hlen := congrArg List.length hgrown
    rw [length_append] at hlen
    exact hrest.after hhdr (.of_eq hgrown) (by omega) htakes hzero fun _ => rfl
  added hholds hmore hends hrest := by
    cases hends with
    | done happ hhdr hblocks hpos hle htakes hzero hexact =>
      have hlen := hblocks.length_eq
      rw [length_append, length_blocks] at hlen
      exact hrest.after hhdr hblocks (by omega) htakes hzero fun hsmall => (hexact hsmall).1
  failed _ hends := by
    cases hends with
    | failed htakes => exact .failed htakes

end Layout

end NexOS.Nxfs
