import NexOS.Nxfs.Operations

/-! # Accounting for every block

On an accounted volume the bitmap marks the metadata and the blocks of used
inodes, and nothing else. An operation keeps a volume accounted exactly if it
does not strand blocks and does not remove the directory that its own entry is
in. The free space that `nxfs_space_info` reports is then what no inode owns.
-/

namespace NexOS.Nxfs

open Program.Ends Nat List

/-- Exactly the metadata and the blocks of used inodes are marked. -/
def Super.Accounted (super : Super) (d : Disk) : Prop := ∀ block < super.totalBlocks,
    super.bitAt d block = true ↔ block < super.dataStart ∨ ∃ index, block ∈ super.heldBy d index

namespace Layout

variable {L : Layout} {d d' : Disk}

/-- On a sound disk, being accounted means that the metadata is marked and that
no data block is stray. -/
lemma accounted_iff (howned : L.Owned d) :
    L.Accounted d ↔ (∀ block < L.dataStart, (L.ledger d).marked block = true) ∧
      ∀ block, L.InData block → ¬(L.ledger d).Stray block := by
  constructor
  · intro hacc
    constructor
    · intro block hblock
      have hlt := hblock.trans_le L.data_le
      rw [L.ledger_marked_iff d hlt]
      exact (hacc block hlt).mpr (.inl hblock)
    · rintro block hdata ⟨hmark, hnone⟩
      rw [L.ledger_marked_iff d hdata.2, hacc block hdata.2] at hmark
      rcases hmark with hbefore | ⟨index, hheld⟩
      · exact absurd hdata.1 (Nat.not_le_of_lt hbefore)
      · exact hnone index hheld
  · rintro ⟨hmeta, hstray⟩ block hblock
    constructor
    · intro hset
      by_contra hnot
      rw [not_or, not_exists, not_lt] at hnot
      refine hstray block ⟨hnot.1, hblock⟩ ⟨?_, hnot.2⟩
      rw [L.ledger_marked_iff d hblock]
      exact hset
    · rintro (hbefore | ⟨index, hheld⟩)
      · rw [← L.ledger_marked_iff d hblock]
        exact hmeta block hbefore
      · exact (howned.inside_of_mem hheld).2

/-- An accounted disk stays so exactly if nothing is lost. -/
lemma Keeps.accounted_iff {lost : List Nat} (hkeeps : L.Keeps d d' lost)
    (howned : L.Owned d) (hacc : L.Accounted d) :
    L.Accounted d' ↔ lost = [] := by
  obtain ⟨hmeta, hstray⟩ := (Layout.accounted_iff howned).mp hacc
  have hmeta' : ∀ block < L.dataStart, (L.ledger d').marked block = true := by
    intro block hblock
    rw [hkeeps.outside block fun hdata => Nat.not_le_of_lt hblock hdata.1]
    exact hmeta block hblock
  rw [Layout.accounted_iff hkeeps.owned, ← hkeeps.balanced_iff hstray]
  exact ⟨And.right, fun h => ⟨hmeta', h⟩⟩

/-- A disk is accounted if its first inodes account for the marks and the others
are not used. -/
lemma accounted_of_first {count : Nat}
    (hrest : ∀ index, count ≤ index → index < maxInodes → (L.inodeAt d index).used = 0)
    (hfirst : ∀ block < L.totalBlocks, L.bitAt d block = true ↔
      block < L.dataStart ∨ ∃ index < count, block ∈ L.heldBy d index) :
    L.Accounted d := by
  intro block hblock
  rw [hfirst block hblock]
  apply or_congr_right
  constructor
  · rintro ⟨index, -, hheld⟩
    exact ⟨index, hheld⟩
  · rintro ⟨index, hheld⟩
    exact ⟨index, lt_of_mem_heldBy hrest hheld, hheld⟩

/-! ## Removing an entry's own directory -/

/-- A directory without blocks has no entries. -/
lemma blocks_ne_nil_of_entry {dir : Inode} (hwithin : L.Within dir) {name : List UInt8}
    (hentry : ((dirLookupEntry dir name).exec Disk.serve d).1 ≠ none) : dir.blocks ≠ [] := by
  intro hnil
  have hcount : dir.blockCount = 0 := by
    rw [hwithin.bounded.blockCount, hnil, length_nil]
  apply hentry
  unfold dirLookupEntry findDirEntrySlot
  rw [hcount]
  rfl

/-- The directory is freed and then stored again as the parent of the removed
entry, so it owns blocks that are not marked. -/
lemma ends_rmdirPath_parent (hsmall : L.IntSized) (howned : L.Owned d)
    {path : List UInt8} (hremoves : L.RemovesParent d path) :
    (rmdirPath L.toSuper path).Ends Disk.serve d fun _ d' => ¬L.Accounted d' := by
  obtain ⟨index, parent, name, dir, hresolve, hlook, hroot, hempty, hentry⟩ := hremoves
  obtain ⟨hsame, hfoundParent⟩ := ends_resolveParentDir L.toSuper path d
  obtain ⟨hpar, htype⟩ := hfoundParent _ hresolve
  obtain ⟨hsame', hfoundDir⟩ := ends_lookupPath L.toSuper path d
  have hdir := hfoundDir _ hlook
  obtain rfl : dir = parent := hdir.stored.trans hpar.stored.symm
  have hholds := howned.holds hpar.stores
  obtain ⟨d₁, d₂, hfree, hwrite, hmarks, hputs, -⟩ :=
    exec_free_write howned hpar.stores held_wrapped_zero
  have hafter : ((dirLookupEntry dir name).exec Disk.serve d₂).1 ≠ none := by
    rwa [exec_dirLookupEntry_free hmarks hputs hholds.within name]
  refine bind_of_some (Prod.ext hresolve hsame) ?_
  refine bind_of_some (Prod.ext hlook hsame') ?_
  refine Program.ends_require_bind (fun hnot => absurd ⟨htype, hroot⟩ hnot) fun _ => ?_
  refine bind_of_some (Prod.ext hempty (readOnly_dirIsEmpty dir d)) ?_
  refine Program.ends_require_bind (fun hnot => absurd rfl hnot) fun _ => ?_
  refine bind_of_some hfree (bind_of_some hwrite ?_)
  refine bind (ends_dirRemoveEntry hpar.lt hholds.within name d₂) ?_ ?_
  · rintro d₃ (⟨-, -, hnone⟩ | ⟨hbad, -⟩)
    · exact absurd (hnone hsmall) hafter
    · cases hbad
  rintro dir' d₃ (⟨hbad, -⟩ | ⟨hdir', hputs', -⟩)
  · cases hbad
  cases hdir'
  obtain ⟨d₄, hexec, hputs''⟩ := exec_writeInode L hpar.lt
    { dir.withDirSize with nlink := dir.withDirSize.nlink - 1 } d₃
  refine of_exec hexec fun hacc => ?_
  have hstores := hputs''.toWrites.stores hpar.lt (hholds.bounded.congr rfl) hpar.used_mod
  obtain ⟨block, hblock⟩ := exists_mem_of_ne_nil _ (blocks_ne_nil_of_entry hholds.within hentry)
  have hlt := (hholds.inside block hblock).1.2
  have hset := (hacc block hlt).mpr (.inr ⟨index, hstores.held ▸ hblock⟩)
  -- Storing inodes and entries leaves the bit that freeing the directory cleared.
  rw [hputs''.bits block hlt, hputs'.bits block hlt, hputs.bits block hlt,
    hmarks.bits block hlt, if_pos hblock] at hset
  cases hset

/-! ## Free space -/

/-- The clear bits from `base` on. -/
def clearFrom (layout : Layout) (bits : Nat → Bool) (base : Nat) : Nat :=
  (List.range (layout.totalBlocks - base)).countP fun i => !bits (base + i)

lemma clearFrom_add (L : Layout) (bits : Nat → Bool) (base limit : Nat)
    (hlimit : limit ≤ L.totalBlocks - base) :
    L.clearFrom bits base = ((List.range limit).countP fun i => !bits (base + i)) +
        L.clearFrom bits (base + limit) := by
  obtain ⟨rest, hrest⟩ := Nat.exists_eq_add_of_le hlimit
  unfold clearFrom
  rw [hrest, range_add, countP_append, countP_map,
    show L.totalBlocks - (base + limit) = rest by omega]
  simp only [Function.comp_def, add_assoc]

lemma exec_countFree (hsmall : L.IntSized) (d : Disk) {count index : Nat}
    (hcount : index + count = L.bitmapBlockCount)
    (hindex : index * bitsPerBlock ≤ L.totalBlocks + bitsPerBlock) :
    (countFree L.toSuper count index).exec Disk.serve d =
      (some (L.clearFrom (L.bitAt d) (index * bitsPerBlock)), d) := by
  have hover : L.totalBlocks ≤ index * bitsPerBlock →
      L.clearFrom (L.bitAt d) (index * bitsPerBlock) = 0 := by
    intro hle
    rw [clearFrom, Nat.sub_eq_zero_of_le hle]
    rfl
  induction count generalizing index with
  | zero =>
    rw [hover]
    · rfl
    · rw [Nat.add_zero] at hcount
      rw [hcount]
      exact L.bitmap_covers
  | succ count ih =>
    have hbits : bitsPerBlock = 4096 := rfl
    have hmod : index * bitsPerBlock % wordLimit = index * bitsPerBlock := by
      have htotal : L.totalBlocks ≤ 2147483648 := hsmall
      have hword : wordLimit = 4294967296 := rfl
      exact Nat.mod_eq_of_lt (by omega)
    unfold countFree
    simp only [hmod]
    split
    next hpast =>
      rw [hover hpast]
      rfl
    next hins =>
      generalize hlimit : min bitsPerBlock (L.totalBlocks - index * bitsPerBlock) = limit
      rw [Program.exec_bind_of_some _ (exec_readBlock _ d)]
      have hnext : (index + 1) * bitsPerBlock = index * bitsPerBlock + bitsPerBlock :=
        Nat.succ_mul _ _
      have hbit : ∀ i < limit, L.bitAt d (index * bitsPerBlock + i) =
          (d (UInt32.ofNat (L.bitmapStart + index))).bitGet i := by
        intro i hi
        have hpos : 0 < bitsPerBlock := by decide
        have hmod' : index * bitsPerBlock % bitsPerBlock = 0 := Nat.mul_mod_left _ _
        rw [L.bitAt_add d (by omega), hmod', Nat.mul_div_cancel _ hpos, Nat.zero_add]
      have hfree : ((List.range limit).filter fun bit =>
          !(d (UInt32.ofNat (L.bitmapStart + index))).bitGet bit).length =
          (List.range limit).countP fun i => !L.bitAt d (index * bitsPerBlock + i) := by
        rw [← countP_eq_length_filter]
        refine countP_congr fun i hi => ?_
        rw [hbit i (mem_range.mp hi)]
      have hrest : L.clearFrom (L.bitAt d) ((index + 1) * bitsPerBlock) =
          L.clearFrom (L.bitAt d) (index * bitsPerBlock + limit) := by
        rw [hnext]
        by_cases hfull : limit = bitsPerBlock
        · rw [hfull]
        -- A part of a bitmap block is the last one, and nothing follows it.
        rw [clearFrom, clearFrom, Nat.sub_eq_zero_of_le (by omega),
          Nat.sub_eq_zero_of_le (by omega)]
        rfl
      rw [Program.exec_bind_of_some _ (ih (by omega) (by omega) ?_)]
      · rw [hfree, hrest, L.clearFrom_add (L.bitAt d) (index * bitsPerBlock) limit (by omega)]
        rfl
      · intro hle
        rw [clearFrom, Nat.sub_eq_zero_of_le hle]
        rfl

/-- The number of data blocks that no inode holds. -/
def unowned (layout : Layout) (d : Disk) : Nat :=
  (List.range layout.totalBlocks).countP fun block =>
    decide (layout.dataStart ≤ block ∧ ∀ index < maxInodes, block ∉ layout.heldBy d index)

/-- On an accounted volume, the free space is what no inode owns. -/
lemma exec_spaceInfo (hsmall : L.IntSized) (hacc : L.Accounted d) :
    (spaceInfo L.toSuper).exec Disk.serve d =
      (some (blockSize, L.totalBlocks, L.unowned d), d) := by
  have hcount := exec_countFree hsmall d (zero_add L.bitmapBlockCount) (by omega)
  have hunowned : L.clearFrom (L.bitAt d) (0 * bitsPerBlock) = L.unowned d := by
    unfold clearFrom unowned
    simp only [zero_mul, zero_add]
    refine countP_congr fun block hblock => ?_
    have hiff := hacc block (mem_range.mp hblock)
    rw [Bool.not_eq_true', decide_eq_true_iff, ← Bool.not_eq_true, hiff, not_or, not_exists, not_lt]
    refine and_congr_right fun _ => ⟨fun h index _ => h index, fun h index => ?_⟩
    by_cases hindex : index < maxInodes
    · exact h index hindex
    · rw [Super.heldBy, if_neg hindex]
      exact not_mem_nil
  unfold spaceInfo
  rw [Program.exec_bind_of_some _ hcount, hunowned]
  rfl

end Layout

/-! ## One operation -/

namespace Volume

/-- On a sound and accounted volume of up to `2 ^ 31` blocks whose block I/O is
served, an operation leaves every block accounted for exactly if it neither
strands blocks nor removes the directory that its own entry is in. Then the
reported free space is what no inode owns. -/
theorem perform_accounted_iff (layout : Layout) (vol : Volume) (op : FsOp) (hvol : vol.Coherent)
    (hsmall : layout.IntSized) (howned : layout.Owned vol.contents)
    (haccounted : layout.Accounted vol.contents)
    (hserves : (op.program layout.toSuper).Meets serve Serves vol) :
    (layout.Accounted (vol.perform layout.toSuper op).contents ↔
      ¬op.Strands layout vol.contents ∧ ¬op.RemovesParent layout vol.contents) ∧
    (layout.Accounted (vol.perform layout.toSuper op).contents →
      ((spaceInfo layout.toSuper).exec Disk.serve (vol.perform layout.toSuper op).contents).1 =
        some (blockSize, layout.totalBlocks,
          layout.unowned (vol.perform layout.toSuper op).contents)) := by
  refine ⟨?_, fun hafter => congrArg Prod.fst (Layout.exec_spaceInfo hsmall hafter)⟩
  by_cases hapart : op.RemovesParent layout vol.contents
  · refine iff_of_false ?_ fun h => h.2 hapart
    cases op with
    | rmdir path =>
      have hends := Layout.ends_rmdirPath_parent hsmall howned hapart
      obtain ⟨-, hcont, -⟩ := hvol.exec _ hserves
      unfold perform
      rw [hcont]
      exact hends
    | create | mkdir | write | truncate | unlink => exact absurd hapart id
  · obtain ⟨-, lost, hkeeps, hexact⟩ := hvol.perform howned op hserves hapart
    rw [hkeeps.accounted_iff howned haccounted, ← hexact hsmall, not_not]
    exact ⟨fun h => ⟨h, hapart⟩, And.left⟩

/-- A small volume with one file. -/
def fileDevice : Device :=
  smallVolume 0x3f [plainInode typeDir 512 228 1, plainInode typeFile 512 229 1] fun block =>
    if block = 228 then zeroBlock.setEntry 0 1 [102] else zeroBlock

lemma sound_fileDevice : smallLayout.Owned (mounted fileDevice 0).contents ∧
    smallLayout.Accounted (mounted fileDevice 0).contents :=
  ⟨Layout.owned_of_first (fun _ => unused_smallVolume 0x3f _ _) (by decide +kernel),
    Layout.accounted_of_first (fun _ => unused_smallVolume 0x3f _ _) (by decide +kernel)⟩

lemma intSized_smallLayout : smallLayout.IntSized := show 232 ≤ 2 ^ 31 by decide

/-- The file can grow by one block. -/
theorem perform_accounted_write :
    smallLayout.Accounted ((mounted fileDevice 0).perform smallLayout.toSuper
      (.write 1 512 [1])).contents := by
  refine (perform_accounted_iff smallLayout (mounted fileDevice 0) (.write 1 512 [1])
    (mounted_coherent (by decide) 0) intSized_smallLayout sound_fileDevice.1 sound_fileDevice.2
    (by decide +kernel)).1.mpr ⟨?_, id⟩
  rintro ⟨inode, hfound, -, -, -, hstrand⟩
  rw [hfound.stored] at hstrand
  revert hstrand
  decide +kernel

/-- A write that needs three more blocks takes the two free ones and fails. The
volume has no free block left, and the file is as before. -/
theorem failed_write_strands :
    let op := FsOp.write 1 0 (List.replicate 2048 1)
    let d := ((mounted fileDevice 0).perform smallLayout.toSuper op).contents
    smallLayout.Owned (mounted fileDevice 0).contents ∧
      smallLayout.Accounted (mounted fileDevice 0).contents ∧
      (op.program smallLayout.toSuper).Meets serve Serves (mounted fileDevice 0) ∧
      ((spaceInfo smallLayout.toSuper).exec Disk.serve (mounted fileDevice 0).contents).1 =
        some (512, 232, 2) ∧
      ((spaceInfo smallLayout.toSuper).exec Disk.serve d).1 = some (512, 232, 0) ∧
      smallLayout.heldBy d 1 = [229] ∧ ¬smallLayout.Accounted d := by
  intro op d
  have hserves : (op.program smallLayout.toSuper).Meets serve Serves (mounted fileDevice 0) := by
    decide +kernel
  refine ⟨sound_fileDevice.1, sound_fileDevice.2, hserves, by decide +kernel, by decide +kernel,
    by decide +kernel, ?_⟩
  obtain ⟨-, lost, hkeeps, hexact⟩ :=
    (mounted_coherent (by decide) 0).perform sound_fileDevice.1 op hserves id
  rw [hkeeps.accounted_iff sound_fileDevice.1 sound_fileDevice.2]
  refine (hexact intSized_smallLayout).mpr ⟨_, ⟨by decide, rfl, by decide +kernel⟩, ?_⟩
  decide +kernel

end Volume

end NexOS.Nxfs
