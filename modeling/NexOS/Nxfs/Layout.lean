import NexOS.Lib.Ledger
import NexOS.Nxfs.Extents
import NexOS.Nxfs.FileSystem

/-! # The regions of a volume

On a volume whose regions do not overlap, a write into one region leaves what
the others hold. The used inodes and the bitmap make up a ledger of blocks.
-/

namespace NexOS.Nxfs

open Program Nat

/-- A superblock whose regions follow one another and whose bitmap covers every
block. `nxfs_mount` does not check this; `nxfs_host` formats no other up to `2 ^ 32 - 4096`
blocks. -/
structure Layout extends Super where
  bitmap_covers : totalBlocks ≤ (inodeStart - bitmapStart) * bitsPerBlock
  inodes_fit : inodeStart * blockSize + maxInodes * inodeSize ≤ dataStart * blockSize
  inodes_small : inodeStart * blockSize + maxInodes * inodeSize ≤ wordLimit
  data_le : dataStart ≤ totalBlocks
  total_small : totalBlocks < wordLimit

/-- No block number is negative as an `int`. -/
def Layout.IntSized (layout : Layout) : Prop := layout.totalBlocks ≤ 2 ^ 31

variable {block index : Nat}

lemma Layout.IntSized.lt {L : Layout} (hsized : L.IntSized)
    (hblock : block < L.totalBlocks) : block < 2 ^ 31 :=
  hblock.trans_le hsized

/-- The operations on a disk, which never fail. -/
def Disk.serve (op : IoOp) (d : Disk) : Option op.Result × Disk :=
  (some (d.step op).1, (d.step op).2)

/-! ## Views of a disk -/

namespace Super

/-- The bit of a block in the bitmap. -/
def bitAt (super : Super) (d : Disk) (block : Nat) : Bool :=
  (d (UInt32.ofNat (super.bitmapStart + block / bitsPerBlock))).bitGet (block % bitsPerBlock)

/-- An inode as the disk has it. -/
def inodeAt (super : Super) (d : Disk) (index : Nat) : Inode :=
  Inode.decode (d.readBytes (super.inodeOffset index) inodeSize)

/-- The blocks that the inode with this number holds. -/
def heldBy (super : Super) (d : Disk) (index : Nat) : List Nat :=
  if index < maxInodes then (super.inodeAt d index).held else []

/-- The block is in the data area. -/
def InData (super : Super) (block : Nat) : Prop :=
  super.dataStart ≤ block ∧ block < super.totalBlocks

instance (super : Super) (block : Nat) : Decidable (super.InData block) :=
  inferInstanceAs (Decidable (_ ∧ _))

/-- Which inode owns which blocks, and which blocks the bitmap marks as used. -/
def ledger (super : Super) (d : Disk) : Ledger Nat Nat where
  held := super.heldBy d
  marked block := decide (block < super.totalBlocks) && super.bitAt d block

/-- The extents of used inodes are disjoint, lie in the data region and are
marked in the bitmap. -/
def Owned (super : Super) (d : Disk) : Prop := (super.ledger d).Sound super.InData

lemma ledger_marked_iff (super : Super) (d : Disk) (hblock : block < super.totalBlocks) :
    (super.ledger d).marked block = super.bitAt d block := by
  simp [ledger, hblock]

end Super

/-! ## Agreement -/

/-- Two disks hold the same blocks from `first` up to `last`. -/
def Disk.Agree (d d' : Disk) (first last : Nat) : Prop :=
  ∀ block, first ≤ block → block < last → d' (UInt32.ofNat block) = d (UInt32.ofNat block)

namespace Disk

lemma Agree.refl (d : Disk) (first last : Nat) : d.Agree d first last := fun _ _ _ => rfl

variable {first last : Nat}

lemma Agree.trans {d d' d'' : Disk} (hfirst : d.Agree d' first last)
    (hsnd : d'.Agree d'' first last) : d.Agree d'' first last := fun block hle hlt =>
  (hsnd block hle hlt).trans (hfirst block hle hlt)

lemma Agree.mono {d d' : Disk} {first' last' : Nat} (hagree : d.Agree d' first last)
    (hfirst : first ≤ first') (hlast : last' ≤ last) : d.Agree d' first' last' :=
  fun block hle hlt => hagree block (hfirst.trans hle) (hlt.trans_le hlast)

lemma ofNat_inj {a b : Nat} (ha : a < wordLimit) (hb : b < wordLimit) :
    UInt32.ofNat a = UInt32.ofNat b ↔ a = b := by
  constructor
  · intro heq
    have hnat := congrArg UInt32.toNat heq
    rwa [UInt32.toNat_ofNat_of_lt' ha, UInt32.toNat_ofNat_of_lt' hb] at hnat
  · rintro rfl
    rfl

lemma agree_update (d : Disk) (data : Block) (hblock : block < wordLimit)
    (hlast : last ≤ wordLimit) (hout : block < first ∨ last ≤ block) :
    d.Agree (Function.update d (UInt32.ofNat block) data) first last := by
  intro other hle hlt
  apply Function.update_of_ne
  rw [ne_eq, ofNat_inj (by omega) hblock]
  omega

lemma agree_writeBytes (d : Disk) {off : Nat} {src : List UInt8}
    (hend : off + src.length ≤ wordLimit) (hlast : last ≤ wordLimit)
    (hout : last * blockSize ≤ off ∨ off + src.length ≤ first * blockSize) :
    d.Agree (d.writeBytes off src) first last := by
  intro block hle hlt
  apply writeBytes_of_outside d hend
  rw [UInt32.toNat_ofNat_of_lt' (hlt.trans_le hlast)]
  rcases hout with hout | hout
  · exact .inl (le_trans (mul_le_mul_right _ hlt) hout)
  · exact .inr (hout.trans (mul_le_mul_right _ hle))

end Disk

/-! ## Frames -/

namespace Layout

variable (L : Layout) {d d' : Disk}

lemma inodeStart_small : L.inodeStart ≤ wordLimit := by
  have hsmall := L.inodes_small
  have hsize : blockSize = 512 := rfl
  rw [hsize] at hsmall
  omega

lemma inodeStart_le : L.inodeStart ≤ L.dataStart := by
  have hfit := L.inodes_fit
  have hsize : blockSize = 512 := rfl
  rw [hsize] at hfit
  omega

lemma dataStart_small : L.dataStart ≤ wordLimit :=
  le_of_lt (lt_of_le_of_lt L.data_le L.total_small)

lemma inodeOffset_eq (hindex : index < maxInodes) :
    L.inodeOffset index = L.inodeStart * blockSize + index * inodeSize := by
  have hsmall := L.inodes_small
  have hinode : inodeSize = 113 := rfl
  rw [hinode] at hsmall
  rw [Super.inodeOffset, hinode]
  exact mod_eq_of_lt (by omega)

/-- An inode of the table ends before the data region and before 4 GiB. -/
lemma inode_end (hindex : index < maxInodes) :
    L.inodeOffset index + inodeSize ≤ L.dataStart * blockSize ∧
      L.inodeOffset index + inodeSize ≤ wordLimit := by
  have hsmall := L.inodes_small
  have hfit := L.inodes_fit
  have hinode : inodeSize = 113 := rfl
  rw [L.inodeOffset_eq hindex]
  rw [hinode] at hsmall hfit
  rw [hinode]
  omega

/-- Blocks of the bitmap lie before the inodes. -/
lemma bitmap_block_lt (hblock : block < L.totalBlocks) : block / bitsPerBlock < L.bitmapBlockCount ∧
      L.bitmapStart + block / bitsPerBlock < L.inodeStart := by
  have hcovers := L.bitmap_covers
  have hlt : block / bitsPerBlock < L.inodeStart - L.bitmapStart :=
    Nat.div_lt_of_lt_mul (by rw [mul_comm]; omega)
  exact ⟨hlt, add_lt_of_lt_sub' hlt⟩

lemma bitAt_congr (hagree : d.Agree d' L.bitmapStart L.inodeStart)
    (hblock : block < L.totalBlocks) : L.bitAt d' block = L.bitAt d block := by
  unfold Super.bitAt
  rw [hagree _ (le_add_right _ _) (L.bitmap_block_lt hblock).2]

lemma inodeAt_congr (hagree : d.Agree d' L.inodeStart L.dataStart)
    (hindex : index < maxInodes) : L.inodeAt d' index = L.inodeAt d index := by
  obtain ⟨hdata, hend⟩ := L.inode_end hindex
  unfold Super.inodeAt
  rw [Disk.readBytes_congr hend]
  intro block hle hlt
  apply hagree
  · rw [L.inodeOffset_eq hindex] at hle
    refine le_trans ?_ hle
    rw [le_div_iff_mul_le (by decide)]
    exact le_add_right _ _
  · exact Nat.lt_of_mul_lt_mul_right (hlt.trans_le hdata)

/-- What the metadata of a volume says: the bits of its blocks and its inodes. -/
structure SameMeta (d d' : Disk) : Prop where
  bits : ∀ block < L.totalBlocks, L.bitAt d' block = L.bitAt d block
  inodes : ∀ index < maxInodes, L.inodeAt d' index = L.inodeAt d index

lemma sameMeta_refl (d : Disk) : L.SameMeta d d := ⟨fun _ _ => rfl, fun _ _ => rfl⟩

/-- A disk that agrees before the data region has the same metadata. -/
lemma sameMeta_of_agree (hagree : d.Agree d' 0 L.dataStart) : L.SameMeta d d' where
  bits _ hblock := L.bitAt_congr (hagree.mono (zero_le _) L.inodeStart_le) hblock
  inodes _ hindex := L.inodeAt_congr (hagree.mono (zero_le _) le_rfl) hindex

variable {L} in
lemma SameMeta.trans {d'' : Disk} (hfirst : L.SameMeta d d')
    (hsnd : L.SameMeta d' d'') : L.SameMeta d d'' where
  bits block hblock := (hsnd.bits block hblock).trans (hfirst.bits block hblock)
  inodes index hindex := (hsnd.inodes index hindex).trans (hfirst.inodes index hindex)

variable {L} in
lemma SameMeta.ledger (hsame : L.SameMeta d d') : L.ledger d' = L.ledger d := by
  have hheld : L.heldBy d' = L.heldBy d := by
    funext index
    unfold Super.heldBy
    by_cases hindex : index < maxInodes
    · rw [hsame.inodes index hindex]
    · rw [if_neg hindex, if_neg hindex]
  have hmark : (L.ledger d').marked = (L.ledger d).marked := by
    funext block
    by_cases hblock : block < L.totalBlocks
    · rw [L.ledger_marked_iff _ hblock, L.ledger_marked_iff _ hblock, hsame.bits block hblock]
    · simp [Super.ledger, hblock]
  have hstep : ∀ l l' : Ledger Nat Nat, l'.held = l.held → l'.marked = l.marked → l' = l := by
    rintro ⟨held, marked⟩ ⟨held', marked'⟩ rfl rfl
    rfl
  exact hstep _ _ hheld hmark

end Layout

/-! ## Reading and writing inodes -/

lemma exec_readBlock (block : Nat) (d : Disk) :
    (readBlock block).exec Disk.serve d = (some (d (UInt32.ofNat block)), d) := rfl

lemma exec_readInode (super : Super) (index : Nat) (d : Disk) :
    (readInode super index).exec Disk.serve d =
      (if index < maxInodes ∧ (super.inodeAt d index).used ≠ 0 then some (super.inodeAt d index)
        else none, d) := by
  have hread : (readBytes (super.inodeOffset index) inodeSize).exec Disk.serve d =
      (some (d.readBytes (super.inodeOffset index) inodeSize), d) := by
    have hoff : (UInt32.ofNat (super.inodeOffset index)).toNat = super.inodeOffset index :=
      UInt32.toNat_ofNat_of_lt' (mod_lt _ (by decide))
    have hstep : (readBytes (super.inodeOffset index) inodeSize).exec Disk.serve d =
        (some (d.readBytes (UInt32.ofNat (super.inodeOffset index)).toNat inodeSize), d) := rfl
    rw [hstep, hoff]
  unfold readInode Super.inodeAt
  by_cases hindex : index < maxInodes
  · by_cases hused : (Inode.decode (d.readBytes (super.inodeOffset index) inodeSize)).used = 0
    · simp [exec_bind, exec_require, hread, hindex, hused]
    · simp [exec_bind, exec_require, hread, hindex, hused]
  · simp [exec_bind, exec_require, hindex]

/-- An inode is stored; the other inodes and the bitmap stay. -/
structure Layout.Writes (layout : Layout) (d d' : Disk) (index : Nat) (inode : Inode) : Prop where
  self : layout.inodeAt d' index = inode.wrapped
  others : ∀ other < maxInodes, other ≠ index → layout.inodeAt d' other = layout.inodeAt d other
  bits : ∀ block < layout.totalBlocks, layout.bitAt d' block = layout.bitAt d block

/-- An inode is stored and the data region stays. -/
structure Layout.Puts (layout : Layout) (d d' : Disk) (index : Nat) (inode : Inode) : Prop
    extends layout.Writes d d' index inode where
  data : d.Agree d' layout.dataStart wordLimit

/-- The bytes of an inode, written to its place in the table. -/
lemma puts_writeBytes (L : Layout) (hindex : index < maxInodes) (inode : Inode) (d : Disk) :
    L.Puts d (d.writeBytes (L.inodeOffset index) inode.encode) index inode := by
  obtain ⟨hdata, hend⟩ := L.inode_end hindex
  rw [← inode.length_encode] at hdata hend
  refine ⟨⟨?_, ?_, ?_⟩, ?_⟩
  · have hback := Disk.readBytes_writeBytes d hend
    rw [inode.length_encode] at hback
    rw [Super.inodeAt, hback, inode.decode_encode]
  · intro other hother hne
    unfold Super.inodeAt
    rw [Disk.readBytes_writeBytes_of_apart d hend (L.inode_end hother).2]
    have hinode : inodeSize = 113 := rfl
    rw [inode.length_encode, L.inodeOffset_eq hindex, L.inodeOffset_eq hother, hinode]
    omega
  · intro block hblock
    apply L.bitAt_congr _ hblock
    apply Disk.agree_writeBytes d hend L.inodeStart_small
    left
    rw [L.inodeOffset_eq hindex]
    exact le_add_right _ _
  · exact Disk.agree_writeBytes d hend le_rfl (.inr hdata)

lemma exec_writeInode (L : Layout) (hindex : index < maxInodes) (inode : Inode) (d : Disk) :
    ∃ d', (writeInode L.toSuper index inode).exec Disk.serve d = (some (), d') ∧
      L.Puts d d' index inode := by
  have hoff : (UInt32.ofNat (L.inodeOffset index)).toNat = L.inodeOffset index :=
    UInt32.toNat_ofNat_of_lt' (mod_lt _ (by decide))
  refine ⟨_, ?_, puts_writeBytes L hindex inode d⟩
  unfold writeInode
  rw [exec_bind, exec_require, if_pos hindex]
  show (some (), d.writeBytes (UInt32.ofNat (L.inodeOffset index)).toNat inode.encode) = _
  rw [hoff]

end NexOS.Nxfs
