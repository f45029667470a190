import NexOS.Nxfs.Directories

/-! # Formatting an image

`nxfs_host mkfs` writes a superblock, a bitmap, the inode of the root directory and its
block over whatever an image file holds. The rest of the inode table is left as it is.
What an image that is mounted afterwards shows depends on what was there.
-/

namespace NexOS.Nxfs

open LittleEndian Nat Option Disk Function

/-! ## The superblock -/

def magic : Nat := 0x4e584653

/-- The fields of `struct nxfs_super` before the uuid. -/
def superWidths : List Nat := [4, 4, 4, 4, 4]

/-- The bytes of the superblock. -/
def Super.encode (super : Super) (uuid : List UInt8) : List UInt8 := encodeFields superWidths
    [magic, super.totalBlocks, super.bitmapStart, super.inodeStart, super.dataStart] ++ uuid

/-- `nxfs_mount` of a device with blocks of 512 bytes, at its start. -/
def mount (d : Disk) : Option Super :=
  match decodeFields superWidths ((d 0).slice 0 20) with
  | [number, totalBlocks, bitmapStart, inodeStart, dataStart] =>
    if number ≠ magic ∨ totalBlocks = 0 then none
    else some ⟨totalBlocks, bitmapStart, inodeStart, dataStart⟩
  | _ => none

/-! ## The host tool -/

/-- `host_file_block_count_or_die`, for the size of a file in bytes. -/
def hostFileBlockCount (size : Nat) : Option Nat :=
  if size < blockSize then none
  else if size % blockSize ≠ 0 then none
  else if 0xffffffff < size / blockSize then none
  else some (size / blockSize)

/-- The block at the position that is sought for a block number, `block * NXFS_BLOCK_SIZE` in
32 bits. -/
def hostBlock (block : Nat) : UInt32 := UInt32.ofNat (block * blockSize % wordLimit / blockSize)

def writeBlockLocal (d : Disk) (block : Nat) (data : Block) : Disk :=
  update d (hostBlock block) data

/-- A bit of the bitmap on the image. -/
def bitmapSetBlockLocal (bitmapStart : Nat) (d : Disk) (block : Nat) (used : Bool) : Disk :=
  let bitmapBlock := (bitmapStart + block / bitsPerBlock) % wordLimit
  writeBlockLocal d bitmapBlock ((d (hostBlock bitmapBlock)).bitSet (block % bitsPerBlock) used)

/-- An inode of the image. -/
def writeInodeLocal (super : Super) (d : Disk) (index : Nat) (inode : Inode) : Disk :=
  let offset := super.inodeOffset index
  let block := offset / blockSize
  writeBlockLocal d block ((d (hostBlock block)).patch (offset % blockSize) inode.encode)

/-- The block of `init_root_dir_block`. -/
def rootDirBlock : Block := (zeroBlock.setEntry 0 0 dot).setEntry 1 0 dotDot

/-- The root directory of a new volume. -/
def formattedRoot (dataStart : Nat) : Inode :=
  { Inode.zero with
    used := 1, type := typeDir, mode := 0o755, nlink := 2, size := blockSize }.setExtent 0
      ⟨dataStart, 1⟩

/-- The size of the bitmap; the sum wraps. -/
def hostBitmapBlocks (totalBlocks : Nat) : Nat :=
  (totalBlocks + bitsPerBlock - 1) % wordLimit / bitsPerBlock

def hostInodeBlocks : Nat := (maxInodes * inodeSize + blockSize - 1) / blockSize

/-- The layout of a new volume. -/
def formattedSuper (totalBlocks : Nat) : Super where
  totalBlocks := totalBlocks
  bitmapStart := 1
  inodeStart := 1 + hostBitmapBlocks totalBlocks
  dataStart := 1 + hostBitmapBlocks totalBlocks + hostInodeBlocks

/-- `mkfs_local` on an image file of some size, with the uuid that was drawn. Without a
result, the tool has stopped with an error. -/
def mkfsLocal (size : Nat) (uuid : List UInt8) (d : Disk) : Option Disk :=
  match hostFileBlockCount size with
  | none => none
  | some totalBlocks =>
    let super := formattedSuper totalBlocks
    let cleared := (List.range (hostBitmapBlocks totalBlocks)).foldl
      (fun d b => writeBlockLocal d (1 + b) zeroBlock) d
    if super.totalBlocks ≤ super.dataStart then none
    else
      let named := update cleared 0 ((cleared 0).patch 0 (super.encode uuid))
      let marked := (List.range super.dataStart).foldl
        (fun d b => bitmapSetBlockLocal super.bitmapStart d b true) named
      let marked := bitmapSetBlockLocal super.bitmapStart marked super.dataStart true
      let rooted := writeInodeLocal super marked 0 (formattedRoot super.dataStart)
      some (writeBlockLocal rooted super.dataStart rootDirBlock)

/-! ## Sizes -/

section Sizes

variable {totalBlocks : Nat}

lemma hostBlock_of_lt {block : Nat} (hblock : block < 2 ^ 23) :
    hostBlock block = UInt32.ofNat block := by
  have hsize : blockSize = 512 := rfl
  have hlimit : wordLimit = 2 ^ 32 := rfl
  rw [hostBlock, hsize, hlimit]
  congr 1
  omega

lemma hostBitmapBlocks_lt (totalBlocks : Nat) : hostBitmapBlocks totalBlocks < 2 ^ 20 :=
  Nat.div_lt_of_lt_mul (mod_lt _ (by decide))

lemma hostInodeBlocks_eq : hostInodeBlocks = 226 := rfl

/-- The bitmap has a bit for every block, but for the largest sizes. -/
lemma hostBitmapBlocks_covers (hsmall : totalBlocks + 4095 < 2 ^ 32) :
    totalBlocks ≤ hostBitmapBlocks totalBlocks * bitsPerBlock := by
  have hbits : bitsPerBlock = 4096 := rfl
  have hlimit : wordLimit = 2 ^ 32 := rfl
  rw [hostBitmapBlocks, hbits, hlimit]
  omega

/-- For the largest sizes the sum wraps, and there is no bitmap. -/
lemma hostBitmapBlocks_of_large (hlarge : 2 ^ 32 ≤ totalBlocks + 4095)
    (htotal : totalBlocks < 2 ^ 32) :
    hostBitmapBlocks totalBlocks = 0 := by
  have hbits : bitsPerBlock = 4096 := rfl
  have hlimit : wordLimit = 2 ^ 32 := rfl
  rw [hostBitmapBlocks, hbits, hlimit]
  omega

lemma formattedSuper_regions (hsmall : totalBlocks + 4095 < 2 ^ 32) :
    let super := formattedSuper totalBlocks
    totalBlocks ≤ (super.inodeStart - super.bitmapStart) * bitsPerBlock ∧
      super.inodeStart * blockSize + maxInodes * inodeSize ≤ super.dataStart * blockSize ∧
      super.inodeStart * blockSize + maxInodes * inodeSize ≤ wordLimit ∧
        totalBlocks < wordLimit := by
  have hcovers := hostBitmapBlocks_covers hsmall
  have hinodes := hostInodeBlocks_eq
  have hbitmap := hostBitmapBlocks_lt totalBlocks
  simp only [formattedSuper, blockSize, maxInodes, inodeSize, wordLimit, Nat.add_sub_cancel_left]
  exact ⟨hcovers, by omega, by omega, by omega⟩

end Sizes

/-- The regions of a formatted image, unless the sum for the bitmap wraps. -/
def formattedLayout (totalBlocks : Nat) (hsmall : totalBlocks + 4095 < 2 ^ 32)
    (hroom : (formattedSuper totalBlocks).dataStart < totalBlocks) : Layout where
  toSuper := formattedSuper totalBlocks
  bitmap_covers := (formattedSuper_regions hsmall).1
  inodes_fit := (formattedSuper_regions hsmall).2.1
  inodes_small := (formattedSuper_regions hsmall).2.2.1
  data_le := hroom.le
  total_small := (formattedSuper_regions hsmall).2.2.2

/-! ## Marking blocks -/

/-- The first blocks are marked as used. -/
def markBlocks (d : Disk) (count : Nat) : Disk :=
  (List.range count).foldl (fun d b => bitmapSetBlockLocal 1 d b true) d

lemma markBlocks_succ (d : Disk) (count : Nat) :
    markBlocks d (count + 1) = bitmapSetBlockLocal 1 (markBlocks d count) count true := by
  rw [markBlocks, List.range_succ, List.foldl_append]
  rfl

lemma bitmapSetBlockLocal_eq (d : Disk) {block : Nat} (hblock : block < 2 ^ 23) :
    bitmapSetBlockLocal 1 d block true = update d (UInt32.ofNat (1 + block / bitsPerBlock))
        ((d (UInt32.ofNat (1 + block / bitsPerBlock))).bitSet (block % bitsPerBlock) true) := by
  have hbits : bitsPerBlock = 4096 := rfl
  have hmod : (1 + block / bitsPerBlock) % wordLimit = 1 + block / bitsPerBlock :=
    mod_eq_of_lt (by rw [hbits]; unfold wordLimit; omega)
  rw [bitmapSetBlockLocal, hmod, writeBlockLocal, hostBlock_of_lt (by rw [hbits]; omega)]

/-- Blocks outside the bitmap stay. -/
lemma markBlocks_of_outside (d : Disk) {count block : Nat} (hcount : count ≤ 2 ^ 23)
    (hblock : block < 2 ^ 32) (hout : ∀ b < count, block ≠ 1 + b / bitsPerBlock) :
    markBlocks d count (UInt32.ofNat block) = d (UInt32.ofNat block) := by
  induction count with
  | zero => rfl
  | succ count ih =>
    have hbits : bitsPerBlock = 4096 := rfl
    rw [markBlocks_succ, bitmapSetBlockLocal_eq _ (by omega), update_of_ne]
    · exact ih (by omega) fun b hb => hout b (by omega)
    · rw [ne_eq, ofNat_inj hblock (by rw [hbits]; unfold wordLimit; omega)]
      exact hout count (lt_succ_self _)

/-- The bits of the first blocks are set, and the other bits stay. -/
lemma bitGet_markBlocks (d : Disk) {count block : Nat} (hcount : count ≤ 2 ^ 23)
    (hblock : block < 2 ^ 32) :
    (markBlocks d count (UInt32.ofNat (1 + block / bitsPerBlock))).bitGet (block % bitsPerBlock) =
      (decide (block < count) ||
        (d (UInt32.ofNat (1 + block / bitsPerBlock))).bitGet (block % bitsPerBlock)) := by
  have hbits : bitsPerBlock = 4096 := rfl
  induction count with
  | zero => simp [markBlocks]
  | succ count ih =>
    have hprior := ih (by omega)
    rw [markBlocks_succ, bitmapSetBlockLocal_eq _ (by omega)]
    by_cases hsame : block / bitsPerBlock = count / bitsPerBlock
    · rw [hsame, update_self, ← hsame,
        Block.bitGet_bitSet _ (mod_lt _ (by decide)) (mod_lt _ (by decide)), hprior]
      by_cases heq : block = count
      · subst heq
        simp
      · have hbit : block % bitsPerBlock ≠ count % bitsPerBlock := by
          rw [hbits] at hsame ⊢
          omega
        have hlt : block < count + 1 ↔ block < count := by omega
        rw [if_neg hbit, decide_eq_decide.mpr hlt]
    · rw [update_of_ne, hprior]
      · have hlt : block < count + 1 ↔ block < count := by
          have hne : block ≠ count := fun heq => hsame (by rw [heq])
          omega
        rw [decide_eq_decide.mpr hlt]
      · rw [hbits] at hsame ⊢
        rw [ne_eq, ofNat_inj (by unfold wordLimit; omega) (by unfold wordLimit; omega)]
        omega

/-- The bitmap is cleared, and the other blocks stay. -/
lemma clear_apply (d : Disk) {count block : Nat} (hcount : count < 2 ^ 20)
    (hblock : block < 2 ^ 32) :
    (List.range count).foldl (fun d b => writeBlockLocal d (1 + b) zeroBlock) d
      (UInt32.ofNat block) =
      if 1 ≤ block ∧ block < 1 + count then zeroBlock else d (UInt32.ofNat block) := by
  induction count with
  | zero => rw [if_neg (by omega)]; rfl
  | succ count ih =>
    rw [List.range_succ, List.foldl_append, List.foldl_cons, List.foldl_nil, writeBlockLocal,
      hostBlock_of_lt (by omega)]
    by_cases heq : block = 1 + count
    · subst heq
      rw [update_self, if_pos (by omega)]
    · rw [update_of_ne, ih (by omega)]
      · exact if_congr (by omega) rfl rfl
      · rwa [ne_eq, ofNat_inj hblock (by unfold wordLimit; omega)]

/-! ## The formatted image -/

/-- The image before its root directory is written. -/
def markedImage (totalBlocks : Nat) (uuid : List UInt8) (d : Disk) : Disk :=
  let super := formattedSuper totalBlocks
  let cleared := (List.range (hostBitmapBlocks totalBlocks)).foldl
    (fun d b => writeBlockLocal d (1 + b) zeroBlock) d
  markBlocks (update cleared 0 ((cleared 0).patch 0 (super.encode uuid))) (super.dataStart + 1)

/-- The image of a new volume. -/
def formattedImage (totalBlocks : Nat) (uuid : List UInt8) (d : Disk) : Disk :=
  let super := formattedSuper totalBlocks
  writeBlockLocal
    (writeInodeLocal super (markedImage totalBlocks uuid d) 0 (formattedRoot super.dataStart))
    super.dataStart rootDirBlock

lemma mkfsLocal_eq_some {size : Nat} {uuid : List UInt8} {d d' : Disk}
    (hmkfs : mkfsLocal size uuid d = some d') :
    ∃ totalBlocks, hostFileBlockCount size = some totalBlocks ∧ totalBlocks < 2 ^ 32 ∧
      (formattedSuper totalBlocks).dataStart < totalBlocks ∧
        d' = formattedImage totalBlocks uuid d := by
  unfold mkfsLocal at hmkfs
  rcases hcount : hostFileBlockCount size with _ | totalBlocks
  · simp [hcount] at hmkfs
  simp only [hcount] at hmkfs
  split_ifs at hmkfs with hroom
  refine ⟨totalBlocks, rfl, ?_, Nat.lt_of_not_le hroom, ?_⟩
  · unfold hostFileBlockCount at hcount
    split_ifs at hcount with hsmall hrest hlarge
    have htotal := Option.some.inj hcount
    omega
  · rw [← Option.some.inj hmkfs, formattedImage, markedImage, markBlocks_succ]
    rfl

section Image

variable {totalBlocks : Nat} {uuid : List UInt8} {d : Disk}

lemma dataStart_lt (totalBlocks : Nat) : (formattedSuper totalBlocks).dataStart + 1 < 2 ^ 21 := by
  have hbitmap := hostBitmapBlocks_lt totalBlocks
  have hinodes := hostInodeBlocks_eq
  simp only [formattedSuper]
  omega

lemma inodeStart_le_dataStart (totalBlocks : Nat) :
    (formattedSuper totalBlocks).dataStart = (formattedSuper totalBlocks).inodeStart + 226 := rfl

lemma inodeOffset_formatted (totalBlocks : Nat) :
    (formattedSuper totalBlocks).inodeOffset 0 =
      (formattedSuper totalBlocks).inodeStart * blockSize := by
  have hdata := dataStart_lt totalBlocks
  have hstart := inodeStart_le_dataStart totalBlocks
  have hsize : blockSize = 512 := rfl
  have hlimit : wordLimit = 2 ^ 32 := rfl
  rw [Super.inodeOffset, zero_mul, add_zero, hsize]
  exact mod_eq_of_lt (by omega)

/-- The first inode lies at the start of the table. -/
lemma writeInodeLocal_eq (d : Disk) (inode : Inode) :
    writeInodeLocal (formattedSuper totalBlocks) d 0 inode =
      update d (UInt32.ofNat (formattedSuper totalBlocks).inodeStart)
        ((d (UInt32.ofNat (formattedSuper totalBlocks).inodeStart)).patch 0 inode.encode) := by
  have hdata := dataStart_lt totalBlocks
  have hstart := inodeStart_le_dataStart totalBlocks
  rw [writeInodeLocal, inodeOffset_formatted, Nat.mul_div_cancel _ (by decide), Nat.mul_mod_left,
    writeBlockLocal, hostBlock_of_lt (by omega)]

lemma formattedImage_eq (totalBlocks : Nat) (uuid : List UInt8) (d : Disk) :
    formattedImage totalBlocks uuid d = update
      (writeInodeLocal (formattedSuper totalBlocks) (markedImage totalBlocks uuid d) 0
        (formattedRoot (formattedSuper totalBlocks).dataStart))
      (UInt32.ofNat (formattedSuper totalBlocks).dataStart) rootDirBlock := by
  have hdata := dataStart_lt totalBlocks
  rw [formattedImage, writeBlockLocal, hostBlock_of_lt (by omega)]

/-- Blocks that are neither the superblock nor in the bitmap stay until the root is written. -/
lemma markedImage_of_outside {block : Nat} (hblock : block < 2 ^ 32)
    (hbitmap : 1 + hostBitmapBlocks totalBlocks ≤ block)
    (hmarks : ∀ b < (formattedSuper totalBlocks).dataStart + 1, block ≠ 1 + b / bitsPerBlock) :
    markedImage totalBlocks uuid d (UInt32.ofNat block) = d (UInt32.ofNat block) := by
  have hdata := dataStart_lt totalBlocks
  have hcount := hostBitmapBlocks_lt totalBlocks
  rw [markedImage, markBlocks_of_outside _ (by omega) hblock hmarks, update_of_ne,
    clear_apply d hcount hblock, if_neg (by omega)]
  rw [ne_eq, show (0 : UInt32) = UInt32.ofNat 0 from rfl, ofNat_inj hblock (by decide)]
  omega

/-- The superblock is written over the start of the first block. -/
lemma formattedImage_zero (totalBlocks : Nat) (uuid : List UInt8) (d : Disk) :
    formattedImage totalBlocks uuid d 0 =
      (d 0).patch 0 ((formattedSuper totalBlocks).encode uuid) := by
  have hstart := inodeStart_le_dataStart totalBlocks
  have hcount := hostBitmapBlocks_lt totalBlocks
  have hinode : (formattedSuper totalBlocks).inodeStart = 1 + hostBitmapBlocks totalBlocks := rfl
  have hne : ∀ {block : Nat}, 0 < block → block < 2 ^ 32 → UInt32.ofNat 0 ≠ UInt32.ofNat block := by
    intro block hpos hlt
    rw [ne_eq, ofNat_inj (by decide) hlt]
    omega
  have hclear := @clear_apply d _ 0 hcount (by decide)
  rw [if_neg (by omega)] at hclear
  rw [formattedImage_eq, show (0 : UInt32) = UInt32.ofNat 0 from rfl,
    update_of_ne (hne (by omega) (by omega)), writeInodeLocal_eq,
    update_of_ne (hne (by omega) (by omega)), markedImage,
    markBlocks_of_outside _ (by omega) (by decide) fun b _ =>
      Nat.ne_of_lt (Nat.lt_of_lt_of_le Nat.one_pos (Nat.le_add_right _ _))]
  exact (update_self _ _ _).trans (by rw [← hclear]; rfl)

lemma length_encode_super (super : Super) :
    (encodeFields superWidths [magic, super.totalBlocks, super.bitmapStart, super.inodeStart,
      super.dataStart]).length = 20 :=
  length_encodeFields _ _ rfl

/-- A formatted image is mounted with the superblock that was written. -/
lemma mount_formattedImage (htotal : totalBlocks < 2 ^ 32)
    (hroom : (formattedSuper totalBlocks).dataStart < totalBlocks) :
    mount (formattedImage totalBlocks uuid d) = some (formattedSuper totalBlocks) := by
  have hstart := inodeStart_le_dataStart totalBlocks
  set super := formattedSuper totalBlocks with hsuper
  have hslice := @Block.slice_patch 0 (d 0) 0 (super.encode uuid) (encodeFields superWidths
      [magic, super.totalBlocks, super.bitmapStart, super.inodeStart, super.dataStart]) uuid
    (by rw [length_encode_super]; decide) rfl
  rw [length_encode_super] at hslice
  have hback := decodeFields_encodeFields superWidths
    [magic, super.totalBlocks, super.bitmapStart, super.inodeStart, super.dataStart] rfl
  have hwords : ∀ value < 2 ^ 32, value % 256 ^ 4 = value := fun value hvalue => mod_eq_of_lt hvalue
  have hblocks : super.totalBlocks = totalBlocks := rfl
  have hfirst : super.bitmapStart = 1 := rfl
  rw [mount, formattedImage_zero]
  rw [hslice, hback]
  simp only [superWidths, List.zipWith_cons_cons, List.zipWith_nil_left]
  rw [hwords magic (by decide), hwords super.totalBlocks (by omega),
    hwords super.bitmapStart (by omega),
    hwords super.inodeStart (by omega), hwords super.dataStart (by omega), if_neg]
  omega

/-- The inode of the root directory is written as the file system writes inodes. -/
lemma writeInodeLocal_eq_writeBytes (d : Disk) (inode : Inode) :
    writeInodeLocal (formattedSuper totalBlocks) d 0 inode =
      d.writeBytes ((formattedSuper totalBlocks).inodeOffset 0) inode.encode := by
  have hdata := dataStart_lt totalBlocks
  have hstart := inodeStart_le_dataStart totalBlocks
  have hlen := inode.length_encode
  have hinode : inodeSize = 113 := rfl
  have hsize : blockSize = 512 := rfl
  have hlimit : wordLimit = 2 ^ 32 := rfl
  rw [writeInodeLocal_eq, inodeOffset_formatted]
  set start := (formattedSuper totalBlocks).inodeStart
  have hword : (UInt32.ofNat start).toNat = start := UInt32.toNat_ofNat_of_lt' (by
    rw [UInt32.size]
    omega)
  funext block
  funext i
  rw [writeBytes_apply d (by rw [hsize]; omega)]
  by_cases hblock : block = UInt32.ofNat start
  · subst hblock
    rw [update_self, hword, Block.patch, if_pos (Nat.zero_le _), overlay,
      if_pos (Nat.le_add_right _ _), Nat.add_sub_cancel_left, Nat.sub_zero]
  · have hne : block.toNat ≠ start := fun heq => hblock (by rw [← heq, UInt32.ofNat_toNat])
    rw [update_of_ne hblock, overlay_eq_none]
    · rfl
    · change block.toNat * 512 + i.val < start * 512 ∨
        start * 512 + inode.encode.length ≤ block.toNat * 512 + i.val
      omega

lemma wrapped_formattedRoot {dataStart : Nat} (hdata : dataStart < 2 ^ 32) :
    (formattedRoot dataStart).wrapped = formattedRoot dataStart := by
  have hmod : dataStart % 2 ^ 32 = dataStart := mod_eq_of_lt hdata
  ext1
  all_goals try rfl
  change [⟨dataStart % 2 ^ 32, 1 % 2 ^ 32⟩] ++ List.replicate 7 (⟨0, 0⟩ : Extent) = _
  rw [hmod]
  rfl

/-- The root directory lists its block. -/
lemma exec_listDir_root {dataStart : Nat} (hdata : dataStart < 2 ^ 31)
    (hblock : d (UInt32.ofNat dataStart) = rootDirBlock) :
    (listDir (formattedRoot dataStart)).exec serve d = (some [dot, dotDot], d) := by
  have hphys : (formattedRoot dataStart).logicalToPhysical 0 = some dataStart := by
    have hmod : dataStart % wordLimit = dataStart := Nat.mod_eq_of_lt (by unfold wordLimit; omega)
    change Inode.physicalFrom 0 (⟨dataStart, 1⟩ :: List.replicate 7 ⟨0, 0⟩) 0 = some dataStart
    rw [Inode.physicalFrom, if_pos (by exact (by decide : 0 < (0 + 1) % wordLimit))]
    rw [Nat.add_zero, hmod, if_pos hdata]
  have hread : (readInodeBlock (formattedRoot dataStart) 0).exec serve d =
      (some rootDirBlock, d) := by
    rw [readInodeBlock, hphys, ← hblock]
    rfl
  have hcount : (formattedRoot dataStart).blockCount = 1 := rfl
  rw [listDir, Program.exec_bind_of_some _ (by rw [Program.exec_require]; rfl), hcount, listDirFrom,
    Program.exec_bind_of_some _ hread]
  rfl

/-! ## What a mounted image shows -/

/-- The volume is empty: the bits of the blocks up to the block of the root directory are set,
the root directory has no entries but the dots, and no other inode is used. -/
structure Super.EmptyVolume (super : Super) (d : Disk) : Prop where
  bits : ∀ block < super.totalBlocks, super.bitAt d block = decide (block ≤ super.dataStart)
  root : ∃ dir, (readInode super rootInode).exec serve d = (some dir, d) ∧ dir.type = typeDir ∧
    (listDir dir).exec serve d = (some [dot, dotDot], d)
  others : ∀ index, 0 < index → index < maxInodes → (super.inodeAt d index).used = 0

variable (hsmall : totalBlocks + 4095 < 2 ^ 32)
  (hroom : (formattedSuper totalBlocks).dataStart < totalBlocks)

include hsmall hroom

/-- The root directory is put into an image whose metadata are marked. -/
lemma puts_root : (formattedLayout totalBlocks hsmall hroom).Puts (markedImage totalBlocks uuid d)
    (writeInodeLocal (formattedSuper totalBlocks) (markedImage totalBlocks uuid d) 0
      (formattedRoot (formattedSuper totalBlocks).dataStart)) 0
    (formattedRoot (formattedSuper totalBlocks).dataStart) := by
  rw [writeInodeLocal_eq_writeBytes]
  exact puts_writeBytes (formattedLayout totalBlocks hsmall hroom) (by decide) _ _

/-- The block of the root directory lies behind the metadata. -/
lemma sameMeta_rootBlock (d : Disk) : (formattedLayout totalBlocks hsmall hroom).SameMeta d
    (update d (UInt32.ofNat (formattedSuper totalBlocks).dataStart) rootDirBlock) := by
  apply Layout.sameMeta_of_agree
  have hlimit : wordLimit = 2 ^ 32 := rfl
  exact agree_update d _ (by omega) (by change (formattedSuper totalBlocks).dataStart ≤ _; omega)
    (.inr le_rfl)

/-- The marks of the metadata lie in the bitmap. -/
lemma mark_lt {b : Nat} (hb : b < (formattedSuper totalBlocks).dataStart + 1) :
    b / bitsPerBlock < hostBitmapBlocks totalBlocks := by
  have hcovers := hostBitmapBlocks_covers hsmall
  exact Nat.div_lt_of_lt_mul (by rw [Nat.mul_comm]; omega)

lemma bitAt_formattedImage {block : Nat} (hblock : block < totalBlocks) :
    (formattedSuper totalBlocks).bitAt (formattedImage totalBlocks uuid d) block =
      decide (block ≤ (formattedSuper totalBlocks).dataStart) := by
  have hdata := dataStart_lt totalBlocks
  have hcount := hostBitmapBlocks_lt totalBlocks
  have hcovers := hostBitmapBlocks_covers hsmall
  have hindex : block / bitsPerBlock < hostBitmapBlocks totalBlocks :=
    Nat.div_lt_of_lt_mul (by rw [Nat.mul_comm]; omega)
  rw [formattedImage_eq]
  refine ((sameMeta_rootBlock hsmall hroom _).bits block hblock).trans ?_
  refine ((puts_root hsmall hroom).bits block hblock).trans ?_
  change ((markedImage totalBlocks uuid d) (UInt32.ofNat (1 + block / bitsPerBlock))).bitGet
    (block % bitsPerBlock) = _
  have hword : 1 + block / bitsPerBlock < wordLimit := by
    unfold wordLimit
    omega
  have hne : UInt32.ofNat (1 + block / bitsPerBlock) ≠ 0 := by
    rw [ne_eq, show (0 : UInt32) = UInt32.ofNat 0 from rfl, ofNat_inj hword (by decide)]
    exact ne_of_gt (lt_of_lt_of_le one_pos (le_add_right _ _))
  rw [markedImage, bitGet_markBlocks _ (by omega) (by omega), update_of_ne hne,
    clear_apply d hcount hword, if_pos ⟨le_add_right _ _, Nat.add_lt_add_left hindex 1⟩]
  have hzero : zeroBlock.bitGet (block % bitsPerBlock) = false := by
    exact zero_testBit _
  rw [hzero, Bool.or_false, decide_eq_decide]
  exact Nat.lt_succ_iff

/-- The other inodes are those that the image had. -/
lemma inodeAt_formattedImage {index : Nat} (hpos : 0 < index) (hindex : index < maxInodes) :
    (formattedSuper totalBlocks).inodeAt (formattedImage totalBlocks uuid d) index =
      (formattedSuper totalBlocks).inodeAt d index := by
  rw [formattedImage_eq]
  refine ((sameMeta_rootBlock hsmall hroom _).inodes index hindex).trans ?_
  refine ((puts_root hsmall hroom).others index hindex (ne_of_gt hpos)).trans ?_
  refine (formattedLayout totalBlocks hsmall hroom).inodeAt_congr (fun block hle hlt => ?_) hindex
  change 1 + hostBitmapBlocks totalBlocks ≤ block at hle
  change block < (formattedSuper totalBlocks).dataStart at hlt
  refine markedImage_of_outside (by omega) hle fun b hb => ?_
  have hmark := mark_lt hsmall hroom hb
  omega

lemma inodeAt_root : (formattedSuper totalBlocks).inodeAt (formattedImage totalBlocks uuid d) 0 =
    formattedRoot (formattedSuper totalBlocks).dataStart := by
  rw [formattedImage_eq]
  refine ((sameMeta_rootBlock hsmall hroom _).inodes 0 (by decide)).trans ?_
  exact (puts_root hsmall hroom).self.trans (wrapped_formattedRoot (by omega))

lemma root_formattedImage : ∃ dir, (readInode (formattedSuper totalBlocks) rootInode).exec serve
        (formattedImage totalBlocks uuid d) = (some dir, formattedImage totalBlocks uuid d) ∧
      dir.type = typeDir ∧ (listDir dir).exec serve (formattedImage totalBlocks uuid d) =
        (some [dot, dotDot], formattedImage totalBlocks uuid d) := by
  have hdata := dataStart_lt totalBlocks
  refine ⟨formattedRoot (formattedSuper totalBlocks).dataStart, ?_, rfl,
    exec_listDir_root (by omega) ?_⟩
  · rw [exec_readInode, rootInode, inodeAt_root hsmall hroom, if_pos ⟨by decide, one_ne_zero⟩]
  · rw [formattedImage_eq, update_self]

omit hsmall hroom

/-- Without a bitmap, the inode of the root directory lies where the bits are. -/
lemma bitAt_of_large (hlarge : 2 ^ 32 ≤ totalBlocks + 4095) (htotal : totalBlocks < 2 ^ 32) :
    (formattedSuper totalBlocks).bitAt (formattedImage totalBlocks uuid d) 1 = false := by
  have hnone := hostBitmapBlocks_of_large hlarge htotal
  have hstart : (formattedSuper totalBlocks).inodeStart = 1 := by
    rw [formattedSuper, hnone]
  have hdata : (formattedSuper totalBlocks).dataStart = 227 := by
    rw [inodeStart_le_dataStart, hstart]
  have hblock : formattedImage totalBlocks uuid d 1 =
      (markedImage totalBlocks uuid d 1).patch 0 (formattedRoot 227).encode := by
    rw [formattedImage_eq, writeInodeLocal_eq, hstart, hdata, update_of_ne (by decide)]
    exact update_self _ _ _
  change ((formattedImage totalBlocks uuid d 1).byte 0).toNat.testBit 1 = false
  have hfirst : overlay 0 (formattedRoot 227).encode 0 = some 1 := by decide
  rw [hblock, Block.byte_patch _ _ _ (by decide), hfirst, getD_some]
  decide

end Image

/-- After formatting an image file, whatever it held, the volume is mounted and empty exactly if
the sum for the size of the bitmap does not wrap and none of the inodes behind the first one of
the new table was marked as used by what the file held. -/
theorem mkfsLocal_empty_iff {size totalBlocks : Nat} {uuid : List UInt8} {d d' : Disk}
    (hsize : hostFileBlockCount size = some totalBlocks) (hmkfs : mkfsLocal size uuid d = some d') :
    (∃ super, mount d' = some super ∧ super.totalBlocks = totalBlocks ∧ super.EmptyVolume d') ↔
      totalBlocks + 4095 < 2 ^ 32 ∧ ∀ index, 0 < index → index < maxInodes →
        ((formattedSuper totalBlocks).inodeAt d index).used = 0 := by
  obtain ⟨blocks, hblocks, htotal, hroom, rfl⟩ := mkfsLocal_eq_some hmkfs
  obtain rfl := Option.some.inj (hsize.symm.trans hblocks)
  have hmount := @mount_formattedImage totalBlocks uuid d htotal hroom
  constructor
  · rintro ⟨super, hsuper, -, hempty⟩
    obtain rfl := Option.some.inj (hmount.symm.trans hsuper)
    have hsmall : totalBlocks + 4095 < 2 ^ 32 := by
      by_contra hlarge
      -- the block of the bitmap would not be marked
      have hdata : 1 ≤ (formattedSuper totalBlocks).dataStart := by
        simp only [formattedSuper]
        omega
      have hbit := hempty.bits 1 (hdata.trans_lt hroom)
      rw [bitAt_of_large (Nat.le_of_not_lt hlarge) htotal, decide_eq_true hdata] at hbit
      exact Bool.noConfusion hbit
    refine ⟨hsmall, fun index hpos hindex => ?_⟩
    rw [← @inodeAt_formattedImage totalBlocks uuid d hsmall hroom index hpos hindex]
    exact hempty.others index hpos hindex
  · rintro ⟨hsmall, hunused⟩
    refine ⟨_, hmount, rfl, fun block => bitAt_formattedImage hsmall hroom,
      root_formattedImage hsmall hroom, fun index hpos hindex => ?_⟩
    rw [inodeAt_formattedImage hsmall hroom hpos hindex]
    exact hunused index hpos hindex

/-- An image of zeros becomes an empty volume. -/
theorem mkfsLocal_empty_zeros :
    ∃ d', mkfsLocal (232 * blockSize) (List.replicate 16 7) (fun _ => zeroBlock) = some d' ∧
      ∃ super, mount d' = some super ∧ super.totalBlocks = 232 ∧ super.EmptyVolume d' := by
  have hsize : hostFileBlockCount (232 * blockSize) = some 232 := by decide
  have hsome :
      (mkfsLocal (232 * blockSize) (List.replicate 16 7) (fun _ => zeroBlock)).isSome = true := by
    decide +kernel
  obtain ⟨d', hmkfs⟩ := isSome_iff_exists.mp hsome
  refine ⟨d', hmkfs, (mkfsLocal_empty_iff hsize hmkfs).mpr ⟨by decide, fun index _ _ => ?_⟩⟩
  -- the bytes are zero wherever they are read from
  change (Inode.decode ((List.range inodeSize).map fun _ => 0)).used = 0
  decide

/-- An image of ones is formatted. Its superblock and its root directory are new, and every
inode but the first is still in use: no file can be created. -/
theorem mkfsLocal_keeps_inodes :
    ∃ d', mkfsLocal (232 * blockSize) (List.replicate 16 7) (fun _ _ => 1) = some d' ∧
      ∃ super, mount d' = some super ∧
        (∀ index, 0 < index → index < maxInodes → (super.inodeAt d' index).used = 0x01010101) ∧
        ((findFreeInode super).exec serve d').1 = none ∧ ¬ super.EmptyVolume d' := by
  have hsome :
      (mkfsLocal (232 * blockSize) (List.replicate 16 7) (fun _ _ => 1)).isSome = true := by
    decide +kernel
  obtain ⟨d', hmkfs⟩ := Option.isSome_iff_exists.mp hsome
  obtain ⟨totalBlocks, hcount, htotal, hroom, rfl⟩ := mkfsLocal_eq_some hmkfs
  obtain rfl : totalBlocks = 232 := by
    have hsize : hostFileBlockCount (232 * blockSize) = some 232 := by decide
    exact Option.some.inj (hcount.symm.trans hsize)
  have hused : ∀ index, 0 < index → index < maxInodes →
      ((formattedSuper 232).inodeAt (formattedImage 232 (List.replicate 16 7) fun _ _ => 1)
        index).used = 0x01010101 := by
    intro index hpos hindex
    rw [inodeAt_formattedImage (by decide) hroom hpos hindex]
    change (Inode.decode ((List.range inodeSize).map fun _ => 1)).used = 0x01010101
    decide
  refine ⟨_, hmkfs, _, mount_formattedImage htotal hroom, hused, ?_, fun hempty => ?_⟩
  · rw [Option.eq_none_iff_forall_ne_some]
    intro index hindex
    obtain ⟨-, hfree⟩ := ends_findFreeInode (formattedSuper 232)
      (formattedImage 232 (List.replicate 16 7) fun _ _ => 1)
    obtain ⟨hlt, hunused⟩ := hfree index hindex
    rcases Nat.eq_zero_or_pos index with rfl | hpos
    · exact absurd hunused (by decide)
    · rw [hused index hpos hlt] at hunused
      exact absurd hunused (by decide)
  · have hone := hused 1 one_pos (by decide)
    rw [hempty.others 1 one_pos (by decide)] at hone
    exact absurd hone (by decide)

end NexOS.Nxfs
