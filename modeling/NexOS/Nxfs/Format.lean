import NexOS.Lib.LittleEndian
import NexOS.Nxfs.Disk

/-! # The volume format

The superblock places a bitmap of used blocks, a table of inodes and the data
region. An inode names its data by up to eight extents. A directory is a file of
fixed-size entries.
-/

namespace NexOS.Nxfs

/-- The number of inodes on every volume. -/
def maxInodes : Nat := 1024

def extentCount : Nat := 8

/-- The bytes of an inode on the disk. -/
def inodeSize : Nat := 113

/-- The bytes of a directory entry. -/
def dirEntrySize : Nat := 32

/-- The bytes for a name in an entry. -/
def nameSize : Nat := 28

def bitsPerBlock : Nat := blockSize * 8

def dirEntriesPerBlock : Nat := blockSize / dirEntrySize

/-- The blocks that a directory grows by. -/
def dirGrowBlocks : Nat := 8

def rootInode : Nat := 0

def typeFile : Nat := 1

def typeDir : Nat := 2

/-- The part of the superblock that the file system reads after mounting. -/
structure Super where
  totalBlocks : Nat
  bitmapStart : Nat
  inodeStart : Nat
  dataStart : Nat

def Super.bitmapBlockCount (super : Super) : Nat := super.inodeStart - super.bitmapStart

/-! ## Inodes -/

/-- Blocks in a row. -/
structure Extent where
  start : Nat
  len : Nat
  deriving DecidableEq, Repr

/-- An inode, with exactly eight extents. -/
@[ext] structure Inode where
  used : Nat
  size : Nat
  type : Nat
  mode : Nat
  uid : Nat
  gid : Nat
  nlink : Nat
  atime : Nat
  mtime : Nat
  ctime : Nat
  extents : List Extent
  extents_length : extents.length = extentCount
  deriving DecidableEq

namespace Inode

lemma length_noExtents : (List.replicate extentCount (⟨0, 0⟩ : Extent)).length = extentCount :=
  List.length_replicate

/-- An inode that is not in use. -/
def zero : Inode where
  used := 0
  size := 0
  type := 0
  mode := 0
  uid := 0
  gid := 0
  nlink := 0
  atime := 0
  mtime := 0
  ctime := 0
  extents := List.replicate extentCount ⟨0, 0⟩
  extents_length := length_noExtents

def setExtent (inode : Inode) (index : Nat) (extent : Extent) : Inode :=
  { inode with
    extents := inode.extents.set index extent
    extents_length := by rw [List.length_set, inode.extents_length] }

/-- The widths of the packed fields, with two for each extent. -/
def fieldWidths : List Nat := [4, 4, 1, 4, 4, 4, 4, 8, 8, 8] ++ List.replicate 16 4

/-- The numbers of an inode, as they are stored. -/
def fields (inode : Inode) : List Nat :=
  [inode.used, inode.size, inode.type, inode.mode, inode.uid, inode.gid, inode.nlink,
    inode.atime, inode.mtime, inode.ctime] ++
    inode.extents.flatMap fun extent => [extent.start, extent.len]

/-- The inode that the stored numbers describe. -/
def ofFields (values : List Nat) : Inode where
  used := values.getD 0 0
  size := values.getD 1 0
  type := values.getD 2 0
  mode := values.getD 3 0
  uid := values.getD 4 0
  gid := values.getD 5 0
  nlink := values.getD 6 0
  atime := values.getD 7 0
  mtime := values.getD 8 0
  ctime := values.getD 9 0
  extents := (List.range extentCount).map fun i =>
    ⟨values.getD (10 + 2 * i) 0, values.getD (11 + 2 * i) 0⟩
  extents_length := by rw [List.length_map, List.length_range]

def encode (inode : Inode) : List UInt8 := LittleEndian.encodeFields fieldWidths inode.fields

def decode (bytes : List UInt8) : Inode := ofFields (LittleEndian.decodeFields fieldWidths bytes)

/-- The number of blocks, of 32 bits. -/
def blockCount (inode : Inode) : Nat := (inode.extents.map Extent.len).sum % wordLimit

/-- The loop of `nxfs_logical_to_physical`. Block numbers from `2 ^ 31` on are
negative as an `int`, which every caller takes for a failure. -/
def physicalFrom (logicalBlock : Nat) : List Extent → Nat → Option Nat
  | [], _ => none
  | extent :: rest, base =>
    if logicalBlock < (base + extent.len) % wordLimit then
      let physical := (extent.start + (logicalBlock - base)) % wordLimit
      if physical < 2 ^ 31 then some physical else none
    else physicalFrom logicalBlock rest ((base + extent.len) % wordLimit)

/-- The block on the volume of a block of the file. -/
def logicalToPhysical (inode : Inode) (logicalBlock : Nat) : Option Nat :=
  physicalFrom logicalBlock inode.extents 0

/-- What the loop returns as a 32-bit word, for the caller that calculates with it
before it looks at the sign. The word of `-1` stands for a block that no extent has. -/
def physicalWordFrom (logicalBlock : Nat) : List Extent → Nat → Nat
  | [], _ => wordLimit - 1
  | extent :: rest, base =>
    if logicalBlock < (base + extent.len) % wordLimit then
      (extent.start + (logicalBlock - base)) % wordLimit
    else physicalWordFrom logicalBlock rest ((base + extent.len) % wordLimit)

def physicalWord (inode : Inode) (logicalBlock : Nat) : Nat :=
  physicalWordFrom logicalBlock inode.extents 0

/-- The last extent that is used. -/
def lastExtent (inode : Inode) : Option Nat :=
  (List.range extentCount).reverse.find? fun i => (inode.extents.getD i ⟨0, 0⟩).len ≠ 0

/-- The first extent that is not used. -/
def freeSlot (inode : Inode) : Option Nat :=
  (List.range extentCount).find? fun i => (inode.extents.getD i ⟨0, 0⟩).len = 0

/-- An extent becomes longer. -/
def growExtent (inode : Inode) (index len : Nat) : Inode :=
  let extent := inode.extents.getD index ⟨0, 0⟩
  inode.setExtent index ⟨extent.start, (extent.len + len) % wordLimit⟩

/-- The block behind an extent. -/
def extentEnd (inode : Inode) (index : Nat) : Nat :=
  let extent := inode.extents.getD index ⟨0, 0⟩
  (extent.start + extent.len) % wordLimit

/-- Blocks are added to the last extent or in a new one. -/
def appendExtent (inode : Inode) (start len : Nat) : Option Inode :=
  if len = 0 then none
  else
    let merged := inode.lastExtent.filter fun last => inode.extentEnd last = start
    match merged, inode.freeSlot with
    | some last, _ => some (inode.growExtent last len)
    | none, some slot => some (inode.setExtent slot ⟨start, len⟩)
    | none, none => none

end Inode

/-! ## Bitmap blocks -/

namespace Block

/-- A bit of a bitmap block. -/
def bitGet (bitmap : Block) (index : Nat) : Bool :=
  (bitmap.byte (index / 8)).toNat.testBit (index % 8)

def bitSet (bitmap : Block) (index : Nat) (used : Bool) : Block :=
  let byte := bitmap.byte (index / 8)
  let mask : UInt8 := 1 <<< UInt8.ofNat (index % 8)
  bitmap.patch (index / 8) [if used then byte ||| mask else byte &&& ~~~mask]

/-- Set or clear `count` bits from `first` on. -/
def setBits (bitmap : Block) (first count : Nat) (used : Bool) : Block :=
  (List.range count).foldl (fun bitmap i => bitmap.bitSet (first + i) used) bitmap

/-! ## Directory blocks -/

/-- The inode of a directory entry. -/
def entryInode (block : Block) (slot : Nat) : Nat :=
  LittleEndian.decode (block.slice (slot * dirEntrySize) 4)

/-- The name of an entry, up to its terminating zero byte. -/
def entryName (block : Block) (slot : Nat) : List UInt8 :=
  (block.slice (slot * dirEntrySize + 4) nameSize).takeWhile (· ≠ 0)

/-- A directory entry is written. -/
def setEntry (block : Block) (slot inode : Nat) (name : List UInt8) : Block :=
  block.patch (slot * dirEntrySize)
    (LittleEndian.encode 4 inode ++ name ++ List.replicate (nameSize - name.length) 0)

end Block

end NexOS.Nxfs
