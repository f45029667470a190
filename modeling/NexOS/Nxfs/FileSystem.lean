import NexOS.Lib.Program
import NexOS.Nxfs.CacheRuns
import NexOS.Nxfs.Format

/-! # The file system

The operations of NXFS as programs over the block I/O of a volume. A function
that returns a negative number fails; one that changes an inode of its caller
also returns that inode, with the outcome beside it.
-/

namespace NexOS.Nxfs

/-- A program over the operations on blocks. -/
abbrev FsM : Type → Type := Program IoOp fun op => Option op.Result

open Program (attempt require ofOption fail)

/-! ## Block I/O -/

def readBlock (block : Nat) : FsM Block := .call (.readBlock (UInt32.ofNat block)) ofOption

def readBlocks (startBlock count : Nat) : FsM (List Block) :=
  .call (.readBlocks (UInt32.ofNat startBlock) (UInt32.ofNat count)) ofOption

def writeBlock (block : Nat) (data : Block) : FsM Unit :=
  .call (.writeBlock (UInt32.ofNat block) data) ofOption

def readBytes (offset size : Nat) : FsM (List UInt8) :=
  .call (.readBytes (UInt32.ofNat offset) (UInt32.ofNat size)) ofOption

def writeBytes (offset : Nat) (bytes : List UInt8) : FsM Unit :=
  .call (.writeBytes (UInt32.ofNat offset) bytes) ofOption

/-! ## Inodes -/

/-- Where an inode is stored. -/
def Super.inodeOffset (super : Super) (index : Nat) : Nat :=
  (super.inodeStart * blockSize + index * inodeSize) % wordLimit

/-- An inode goes to its place. -/
def writeInode (super : Super) (index : Nat) (inode : Inode) : FsM Unit := do
  require (index < maxInodes)
  writeBytes (super.inodeOffset index) inode.encode

/-- An inode in use. -/
def readInode (super : Super) (index : Nat) : FsM Inode := do
  require (index < maxInodes)
  let bytes ← readBytes (super.inodeOffset index) inodeSize
  require ((Inode.decode bytes).used ≠ 0)
  return Inode.decode bytes

def findFreeInodeFrom (super : Super) : Nat → Nat → FsM Nat
  | 0, _ => fail
  | count + 1, index => do
      match ← attempt (readInode super index) with
      | none => return index
      | some _ => findFreeInodeFrom super count (index + 1)

/-- The first inode that is not in use. -/
def findFreeInode (super : Super) : FsM Nat := findFreeInodeFrom super maxInodes 0

/-! ## The bitmap -/

/-- The loop of `nxfs_bitmap_set_range`, one bitmap block at a time. -/
def setRangeLoop (super : Super) (start len : Nat) (used : Bool) : Nat → Nat → FsM Unit
  | 0, _ => return ()
  | fuel + 1, done =>
    if done < len then do
      let block := start + done
      let bitmapIndex := block / bitsPerBlock
      let bit := block % bitsPerBlock
      let chunk := min (bitsPerBlock - bit) (len - done)
      require (bitmapIndex < super.bitmapBlockCount)
      let bitmap ← readBlock (super.bitmapStart + bitmapIndex)
      writeBlock (super.bitmapStart + bitmapIndex) (bitmap.setBits bit chunk used)
      setRangeLoop super start len used fuel (done + chunk)
    else return ()

/-- The bits of a range of blocks. -/
def bitmapSetRange (super : Super) (start len : Nat) (used : Bool) : FsM Unit := do
  require (len ≠ 0 ∧ start < super.totalBlocks ∧ start ≤ (start + len) % wordLimit ∧
    (start + len) % wordLimit ≤ super.totalBlocks)
  setRangeLoop super start len used len 0

/-- Count the clear bits of the bitmap blocks from `bitmapIndex` on. -/
def countFree (super : Super) : Nat → Nat → FsM Nat
  | 0, _ => return 0
  | count + 1, bitmapIndex =>
    let baseBlock := bitmapIndex * bitsPerBlock % wordLimit
    if super.totalBlocks ≤ baseBlock then return 0
    else do
      let limit := min bitsPerBlock (super.totalBlocks - baseBlock)
      let bitmap ← readBlock (super.bitmapStart + bitmapIndex)
      let free := ((List.range limit).filter fun bit => !bitmap.bitGet bit).length
      return free + (← countFree super count (bitmapIndex + 1))

/-- `nxfs_space_info`: the block size, the number of blocks and of free blocks. -/
def spaceInfo (super : Super) : FsM (Nat × Nat × Nat) := do
  let freeBlocks ← countFree super super.bitmapBlockCount 0
  return (blockSize, super.totalBlocks, freeBlocks)

/-- A run of free blocks that a scan is in. -/
structure Run where
  start : Nat
  len : Nat

/-- Scan `count` bits of a bitmap block for a run of `len` free blocks: the
start of such a run, or the run that the scan is in at the end. -/
def scanBits (super : Super) (bitmap : Block) (baseBlock len : Nat) : Nat → Nat → Run → Nat ⊕ Run
  | 0, _, run => .inr run
  | count + 1, bit, run =>
    let block := baseBlock + bit
    if block < super.dataStart then scanBits super bitmap baseBlock len count (bit + 1) run
    else if bitmap.bitGet bit then
      scanBits super bitmap baseBlock len count (bit + 1) ⟨run.start, 0⟩
    else
      let start := if run.len = 0 then block else run.start
      if len ≤ run.len + 1 then .inl start
      else scanBits super bitmap baseBlock len count (bit + 1) ⟨start, run.len + 1⟩

/-- The bitmap is searched for a row of free blocks. -/
def allocScan (super : Super) (len : Nat) : Nat → Nat → Run → FsM Nat
  | 0, _, _ => fail
  | count + 1, bitmapIndex, run =>
    let baseBlock := bitmapIndex * bitsPerBlock % wordLimit
    if super.totalBlocks ≤ baseBlock then fail
    else do
      let limit := min bitsPerBlock (super.totalBlocks - baseBlock)
      let bitmap ← readBlock (super.bitmapStart + bitmapIndex)
      match scanBits super bitmap baseBlock len limit 0 run with
      | .inl start =>
        bitmapSetRange super start len true
        -- As an `int`, a larger start is negative and taken for a failure.
        require (start < 2 ^ 31)
        return start
      | .inr run =>
        if limit ≠ bitsPerBlock then fail
        else allocScan super len count (bitmapIndex + 1) run

/-- First fit, from the start of the data region. -/
def allocExtent (super : Super) (len : Nat) : FsM Nat :=
  if len = 0 then fail else allocScan super len super.bitmapBlockCount 0 ⟨0, 0⟩

/-- The blocks of an extent become free. -/
def freeExtent (super : Super) (start len : Nat) : FsM Unit :=
  if len = 0 then return () else bitmapSetRange super start len false

def freeExtents (super : Super) : List Extent → FsM Unit
  | [] => return ()
  | extent :: rest => do
      if extent.len ≠ 0 then freeExtent super extent.start extent.len
      freeExtents super rest

def freeAllExtents (super : Super) (inode : Inode) : FsM Unit := freeExtents super inode.extents

/-- The loop of `nxfs_range_is_free` from `block` on. -/
def rangeFreeLoop (super : Super) (rangeEnd : Nat) : Nat → Nat → FsM Bool
  | 0, _ => return true
  | fuel + 1, block =>
    if block < rangeEnd then do
      let bitmapIndex := block / bitsPerBlock
      let firstBit := block % bitsPerBlock
      let limit :=
        if bitmapIndex = (super.totalBlocks - 1) / bitsPerBlock then
          min bitsPerBlock (super.totalBlocks - bitmapIndex * bitsPerBlock)
        else bitsPerBlock
      match ← attempt (readBlock (super.bitmapStart + bitmapIndex)) with
      | none => return false
      | some bitmap =>
        let count := min (limit - firstBit) (rangeEnd - block)
        if (List.range count).any fun i => bitmap.bitGet (firstBit + i) then return false
        else rangeFreeLoop super rangeEnd fuel (block + count)
    else return true

/-- All the bits of a range are clear. -/
def rangeIsFree (super : Super) (start len : Nat) : FsM Bool :=
  if len = 0 ∨ start < super.dataStart ∨ super.totalBlocks ≤ start ∨
      super.totalBlocks - start < len then
    return false
  else rangeFreeLoop super (start + len) len start

/-! ## Growing a file -/

/-- The last extent grows if the blocks behind it are free. -/
def tryExtendLastExtent (super : Super) (inode : Inode) (len : Nat) : FsM Inode := do
  require (len ≠ 0)
  let last ← ofOption inode.lastExtent
  let start := inode.extentEnd last
  require (start < super.totalBlocks ∧ len ≤ super.totalBlocks - start)
  let free ← rangeIsFree super start len
  require (free = true)
  bitmapSetRange super start len true
  return inode.growExtent last len

def zeroBlock : Block := fun _ => 0

/-- Zero `count` blocks of a file from a logical block on. -/
def zeroLogical (inode : Inode) : Nat → Nat → FsM Unit
  | 0, _ => return ()
  | count + 1, logical => do
      let physical ← ofOption (inode.logicalToPhysical logical)
      writeBlock physical zeroBlock
      zeroLogical inode count (logical + 1)

/-- Zero `count` blocks from `start` on. -/
def zeroBlocks : Nat → Nat → FsM Unit
  | 0, _ => return ()
  | count + 1, start => do
      writeBlock start zeroBlock
      zeroBlocks count (start + 1)

/-- Extend the last extent by as many blocks as possible, at most `chunk`. -/
def extendLargest (super : Super) (inode : Inode) (blocks : Nat) : Nat → FsM (Option (Inode × Nat))
  | 0 => return none
  | chunk + 1 => do
      match ← attempt (tryExtendLastExtent super inode (chunk + 1)) with
      | some grown =>
        zeroLogical grown (chunk + 1) blocks
        return some (grown, blocks + (chunk + 1))
      | none => extendLargest super inode blocks chunk

/-- Allocate an extent of as many blocks as possible, at most `chunk`. -/
def allocLargest (super : Super) : Nat → FsM (Option Extent)
  | 0 => return none
  | chunk + 1 => do
      match ← attempt (allocExtent super (chunk + 1)) with
      | some start => return some ⟨start, chunk + 1⟩
      | none => allocLargest super chunk

/-- Add an extent of as many blocks as possible, at most `chunk`. -/
def addExtent (super : Super) (inode : Inode) (chunk : Nat) : FsM (Inode × Nat) := do
  match ← allocLargest super chunk with
  | none => fail
  | some extent =>
    match inode.appendExtent extent.start extent.len with
    | none => do
        let _ ← attempt (freeExtent super extent.start extent.len)
        fail
    | some inode => do
        match ← attempt (zeroBlocks extent.len extent.start) with
        | none => do
            let _ ← attempt (freeExtent super extent.start extent.len)
            fail
        | some () => return (inode, extent.len)

/-- The loop of `nxfs_ensure_blocks`, on a copy of the inode. Every round gains a
block, so `fuel` never runs out before the file has `needBlocks` blocks. -/
def ensureLoop (super : Super) (needBlocks : Nat) : Nat → Inode → Nat → FsM Inode
  | 0, inode, _ => return inode
  | fuel + 1, inode, blocks =>
    if blocks < needBlocks then do
      let extended ← extendLargest super inode blocks (needBlocks - blocks)
      let (inode, blocks) := extended.getD (inode, blocks)
      if needBlocks ≤ blocks then return inode
      else
        let (inode, added) ← addExtent super inode (needBlocks - blocks)
        ensureLoop super needBlocks fuel inode (blocks + added)
    else return inode

/-- The file grows to so many blocks. -/
def ensureBlocks (super : Super) (inode : Inode) (needBlocks : Nat) : FsM Inode :=
  ensureLoop super needBlocks needBlocks inode inode.blockCount

/-- A block of a file. -/
def readInodeBlock (inode : Inode) (logicalBlock : Nat) : FsM Block := do
  let physical ← ofOption (inode.logicalToPhysical logicalBlock)
  readBlock physical

def writeInodeBlock (inode : Inode) (logicalBlock : Nat) (data : Block) : FsM Unit := do
  let physical ← ofOption (inode.logicalToPhysical logicalBlock)
  writeBlock physical data

/-! ## Directories -/

/-- The first slot of a directory block that holds a name, or that is free. -/
def Block.findSlot (block : Block) (want : Option (List UInt8)) : Option Nat :=
  (List.range dirEntriesPerBlock).find? fun slot =>
    match want with
    | none => (block.entryName slot).isEmpty
    | some name => !(block.entryName slot).isEmpty && block.entryName slot == name

def findDirEntryFrom (dir : Inode) (want : Option (List UInt8)) : Nat → Nat → FsM (Nat × Nat × Nat)
  | 0, _ => fail
  | count + 1, blockIndex => do
      let block ← readInodeBlock dir blockIndex
      match block.findSlot want with
      | some slot => return (block.entryInode slot, blockIndex, slot)
      | none => findDirEntryFrom dir want count (blockIndex + 1)

/-- The place of a name, or a free place. -/
def findDirEntrySlot (dir : Inode) (want : Option (List UInt8)) : FsM (Nat × Nat × Nat) :=
  findDirEntryFrom dir want dir.blockCount 0

/-- The place of a name in a directory. -/
def dirLookupEntry (dir : Inode) (name : List UInt8) : FsM (Nat × Nat × Nat) :=
  findDirEntrySlot dir (some name)

/-- A free place, for which the directory grows if need be. -/
def dirFindFreeSlot (super : Super) (dir : Inode) : FsM (Inode × Option (Nat × Nat)) := do
  match ← attempt (findDirEntrySlot dir none) with
  | some (_, blockIndex, slot) => return (dir, some (blockIndex, slot))
  | none =>
    match ← attempt (ensureBlocks super dir ((dir.blockCount + dirGrowBlocks) % wordLimit)) with
    | none => return (dir, none)
    | some grown => return (grown, some (dir.blockCount, 0))

/-- The size of a directory is that of its blocks, in 32 bits. -/
def Inode.withDirSize (dir : Inode) : Inode :=
  { dir with size := dir.blockCount * blockSize % wordLimit }

/-- A block that the directory does not have is empty. -/
def dirBlock (dir : Inode) (blockIndex : Nat) : FsM Block :=
  if blockIndex < dir.blockCount then readInodeBlock dir blockIndex else pure zeroBlock

/-- An entry is written into its block. -/
def dirWriteEntry (super : Super) (dirIndex : Nat) (dir : Inode) (blockIndex slot : Nat)
    (inode : Nat) (name : List UInt8) : FsM Unit := do
  let block ← dirBlock dir blockIndex
  writeInodeBlock dir blockIndex (block.setEntry slot inode name)
  writeInode super dirIndex dir.withDirSize

/-- A name is added to a directory. -/
def dirAddEntry (super : Super) (dirIndex : Nat) (dir : Inode) (name : List UInt8) (child : Nat) :
    FsM (Inode × Option Unit) := do
  if name.isEmpty ∨ nameSize ≤ name.length then return (dir, none)
  else
    match ← attempt (dirLookupEntry dir name) with
    | some _ => return (dir, none)
    | none =>
      match ← dirFindFreeSlot super dir with
      | (dir, none) => return (dir, none)
      | (dir, some (blockIndex, slot)) =>
        match ← attempt (dirWriteEntry super dirIndex dir blockIndex slot child name) with
        | none => return (dir, none)
        | some () => return (dir.withDirSize, some ())

/-- Unlike the other directory functions this one fails without telling its
caller's inode, which no caller uses afterwards. -/
def dirRemoveEntry (super : Super) (dirIndex : Nat) (dir : Inode) (name : List UInt8) :
    FsM Inode := do
  let (_, blockIndex, slot) ← dirLookupEntry dir name
  let block ← readInodeBlock dir blockIndex
  writeInodeBlock dir blockIndex (block.setEntry slot 0 [])
  writeInode super dirIndex dir.withDirSize
  return dir.withDirSize

def listDirFrom (dir : Inode) : Nat → Nat → FsM (List (List UInt8))
  | 0, _ => return []
  | count + 1, blockIndex => do
      let block ← readInodeBlock dir blockIndex
      let names := ((List.range dirEntriesPerBlock).map block.entryName).filter (!·.isEmpty)
      return names ++ (← listDirFrom dir count (blockIndex + 1))

/-- The names in a directory. -/
def listDir (dir : Inode) : FsM (List (List UInt8)) := do
  require (dir.type = typeDir)
  listDirFrom dir dir.blockCount 0

def slash : UInt8 := 47

def dot : List UInt8 := [46]

def dotDot : List UInt8 := [46, 46]

/-- Only the first sixteen entries are looked at. -/
def dirIsEmpty (dir : Inode) : FsM Bool := do
  if dir.type ≠ typeDir then return false
  else
    match ← attempt (listDir dir) with
    | none => return false
    | some names => return (names.take 16).all fun name => name == dot || name == dotDot

/-! ## Paths -/

/-- The first segment of a path and what follows it. A segment that does not fit
its buffer is refused; so is the end of a path, where no caller asks for one. -/
def pathNextSegment (path : List UInt8) : Option (List UInt8 × List UInt8) :=
  let path := path.dropWhile (· = slash)
  let segment := path.takeWhile (· ≠ slash)
  if path.isEmpty ∨ nameSize ≤ segment.length then none
  else some (segment, (path.dropWhile (· ≠ slash)).dropWhile (· = slash))

/-- The loop of `nxfs_lookup_path`; each round takes a segment off the path. -/
def lookupFrom (super : Super) : Nat → List UInt8 → Inode → FsM (Nat × Inode)
  | 0, _, _ => fail
  | fuel + 1, path, current => do
      let (segment, rest) ← ofOption (pathNextSegment path)
      require (current.type = typeDir)
      let (childIndex, _, _) ← dirLookupEntry current segment
      let child ← readInode super childIndex
      if rest.isEmpty then return (childIndex, child)
      else lookupFrom super fuel rest child

/-- The inode at a path. -/
def lookupPath (super : Super) (path : List UInt8) : FsM (Nat × Inode) := do
  let root ← readInode super rootInode
  require (root.type = typeDir)
  let path := path.dropWhile (· = slash)
  if path.isEmpty then return (rootInode, root) else lookupFrom super path.length path root

def pathBufferSize : Nat := 256

/-- The parent and the name that a path ends in. Slashes around the path are
ignored; a path of slashes only is never passed. -/
def splitParentChildPath (path : List UInt8) : Option (List UInt8 × List UInt8) :=
  let path := (path.dropWhile (· = slash)).reverse.dropWhile (· = slash)
  let name := (path.takeWhile (· ≠ slash)).reverse
  let parent := ((path.dropWhile (· ≠ slash)).drop 1).reverse
  if name.isEmpty ∨ nameSize ≤ name.length ∨ pathBufferSize ≤ parent.length then none
  else some (parent, name)

/-- The directory at a path. -/
def lookupDir (super : Super) (parentPath : List UInt8) : FsM (Nat × Inode) := do
  if parentPath.isEmpty then do
    let root ← readInode super rootInode
    require (root.type = typeDir)
    return (rootInode, root)
  else do
    let (index, dir) ← lookupPath super parentPath
    require (dir.type = typeDir)
    return (index, dir)

/-- The directory that the last name of a path is in. -/
def resolveParentDir (super : Super) (path : List UInt8) : FsM (Nat × Inode × List UInt8) := do
  require (path ≠ [])
  let (parentPath, name) ← ofOption (splitParentChildPath path)
  let (parentIndex, parent) ← lookupDir super parentPath
  return (parentIndex, parent, name)

/-! ## File operations -/

/-- Where a new path goes, if there is no such path yet: its directory and a free
inode. -/
def prepareCreate (super : Super) (path parentPath : List UInt8) : FsM (Nat × Inode × Nat) := do
  let (parentIndex, parent) ← lookupDir super parentPath
  let existing ← attempt (lookupPath super path)
  require (existing.isNone = true)
  let index ← findFreeInode super
  return (parentIndex, parent, index)

/-- The inode of a new file. -/
def newFile : Inode := { Inode.zero with used := 1, type := typeFile, mode := 0o644, nlink := 1 }

/-- An empty file at a path. -/
def createPath (super : Super) (path : List UInt8) : FsM (Nat × Inode) := do
  require (path ≠ [])
  let (parentPath, name) ← ofOption (splitParentChildPath path)
  require (name.length < nameSize)
  let (parentIndex, parent, index) ← prepareCreate super path parentPath
  writeInode super index newFile
  match ← dirAddEntry super parentIndex parent name index with
  | (_, none) => do
      let _ ← attempt (writeInode super index Inode.zero)
      fail
  | (_, some ()) => return (index, newFile)

/-- The inode of a new directory. -/
def newDir : Inode :=
  { Inode.zero with used := 1, type := typeDir, mode := 0o755, nlink := 2, size := blockSize }

/-- A directory that could not be entered is given up. -/
def abandonDir (super : Super) (index : Nat) (dir : Inode) : FsM (Nat × Inode) := do
  let _ ← attempt (freeAllExtents super dir)
  let _ ← attempt (writeInode super index Inode.zero)
  fail

/-- The dot entries and the entry in the parent. -/
def enterDir (super : Super) (index : Nat) (dir : Inode) (parentIndex : Nat) (parent : Inode)
    (name : List UInt8) : FsM (Nat × Inode) := do
  match ← dirAddEntry super index dir dot index with
  | (dir, none) => abandonDir super index dir
  | (dir, some ()) =>
    match ← dirAddEntry super index dir dotDot parentIndex with
    | (dir, none) => abandonDir super index dir
    | (dir, some ()) =>
      match ← dirAddEntry super parentIndex parent name index with
      | (_, none) => abandonDir super index dir
      | (parent, some ()) => do
          writeInode super parentIndex { parent with nlink := (parent.nlink + 1) % wordLimit }
          return (index, dir)

/-- `nxfs_mkdir_path` once the parent and an inode are found. -/
def startDir (super : Super) (parentIndex : Nat) (parent : Inode) (index : Nat)
    (name : List UInt8) : FsM (Nat × Inode) := do
  match ← attempt (ensureBlocks super newDir 1) with
  | none => abandonDir super index newDir
  | some dir =>
    match ← attempt (writeInode super index dir) with
    | none => abandonDir super index dir
    | some () => enterDir super index dir parentIndex parent name

/-- A directory at a path. -/
def mkdirPath (super : Super) (path : List UInt8) : FsM (Nat × Inode) := do
  require (path ≠ [])
  let (parentPath, name) ← ofOption (splitParentChildPath path)
  require (name ≠ [] ∧ name ≠ dot ∧ name ≠ dotDot)
  let (parentIndex, parent, index) ← prepareCreate super path parentPath
  startDir super parentIndex parent index name

/-- The part of a block that a request covers: where it starts and its length. -/
def calcBlockWindow (blockStart blockEnd dataLimit offset requestEnd : Nat) : Option (Nat × Nat) :=
  if blockEnd ≤ offset ∨ dataLimit ≤ blockStart then none
  else
    let copyStart := max offset blockStart
    let copyEnd := min (min blockEnd dataLimit) requestEnd
    if copyEnd ≤ copyStart then none else some (copyStart, copyEnd - copyStart)

/-- What a write up to `requestEnd` covers of a block of the file: the place in
the block and the number of bytes. -/
def writeWindow (offset requestEnd blockIndex : Nat) : Option (Nat × Nat) :=
  let blockStart := blockIndex * blockSize % wordLimit
  let blockEnd := (blockStart + blockSize) % wordLimit
  (calcBlockWindow blockStart blockEnd requestEnd offset requestEnd).map fun (copyStart, chunk) =>
    (copyStart - blockStart, chunk)

/-- The part of a write in one block. -/
def writeChunk (inode : Inode) (offset requestEnd : Nat) (data : List UInt8)
    (blockIndex done : Nat) : FsM Nat := do
  let block ← readInodeBlock inode blockIndex
  match writeWindow offset requestEnd blockIndex with
  | none => return done
  | some (place, chunk) => do
      writeInodeBlock inode blockIndex (block.patch place ((data.drop done).take chunk))
      return done + chunk

/-- The loop of `nxfs_write_file_range` over the blocks of the file. -/
def writeRangeLoop (inode : Inode) (offset requestEnd : Nat) (data : List UInt8) :
    Nat → Nat → Nat → FsM Nat
  | 0, _, done => return done
  | count + 1, blockIndex, done =>
    if done < data.length then do
      let done ← writeChunk inode offset requestEnd data blockIndex done
      writeRangeLoop inode offset requestEnd data count (blockIndex + 1) done
    else return done

/-- A file reaches at least to the end of a write. -/
def Inode.withSizeAtLeast (inode : Inode) (requestEnd : Nat) : Inode :=
  { inode with size := max inode.size requestEnd }

/-- The caller's inode after the write, and the number of bytes written. -/
def writeFileRange (super : Super) (index : Nat) (inode : Inode) (offset : Nat)
    (data : List UInt8) : FsM (Inode × Option Nat) := do
  if inode.type ≠ typeFile then return (inode, none)
  else if data.isEmpty then return (inode, some 0)
  else
    let requestEnd := (offset + data.length) % wordLimit
    if requestEnd < offset then return (inode, none)
    else
      let needBlocks := (requestEnd + blockSize - 1) % wordLimit / blockSize
      match ← attempt (ensureBlocks super inode needBlocks) with
      | none => return (inode, none)
      | some inode =>
        match ← attempt (writeRangeLoop inode offset requestEnd data inode.blockCount 0 0) with
        | none => return (inode, none)
        | some done =>
          let inode := inode.withSizeAtLeast requestEnd
          match ← attempt (writeInode super index inode) with
          | none => return (inode, none)
          | some () => return (inode, some done)

/-- `NXFS_READ_RUN_MAX_BLOCKS`. -/
def readRunMax : Nat := 128

/-- What a read up to `requestEnd` covers of a block of a file: the place in the
block and the number of bytes. -/
def readWindow (size offset requestEnd blockIndex : Nat) : Option (Nat × Nat) :=
  let blockStart := blockIndex * blockSize % wordLimit
  let blockEnd := (blockStart + blockSize) % wordLimit
  (calcBlockWindow blockStart blockEnd size offset requestEnd).map fun (copyStart, chunk) =>
    (copyStart - blockStart, chunk)

/-- A read of `bufferSize` bytes, as its loop sees it. -/
structure ReadRequest where
  offset : Nat
  bufferSize : Nat
  requestEnd : Nat
  lastBlock : Nat

/-- The loop that looks for blocks that can be read together with the block before:
the number of blocks from `blockIndex` on that follow one another on the disk and are
read whole. The last of them so far is at `previous`. The numbers are compared as
`int`s, before the sign of the next one is looked at, and `previous + 1` wraps. -/
def extendRun (inode : Inode) (req : ReadRequest) (blockIndex done : Nat) : Nat → Nat → Nat → Nat
  | 0, run, _ => run
  | fuel + 1, run, previous =>
    if blockIndex + run < req.lastBlock ∧ run < readRunMax ∧
        (done + run * blockSize) % wordLimit < req.bufferSize then
      let next := inode.physicalWord (blockIndex + run)
      if next = (previous + 1) % wordLimit ∧
          readWindow inode.size req.offset req.requestEnd (blockIndex + run) =
            some (0, blockSize) then
        extendRun inode req blockIndex done fuel (run + 1) next
      else run
    else run

/-- What one round of a read gets: its bytes, and the number of blocks they come from.
Whole blocks that follow one another on the disk are read at once. -/
def readPiece (inode : Inode) (req : ReadRequest) (blockIndex done : Nat) :
    FsM (List UInt8 × Nat) := do
  let physical ← ofOption (inode.logicalToPhysical blockIndex)
  match readWindow inode.size req.offset req.requestEnd blockIndex with
  | none => return ([], 1)
  | some (place, chunk) =>
    if place = 0 ∧ chunk = blockSize then do
      let run := extendRun inode req blockIndex done req.lastBlock 1 physical
      let blocks ← readBlocks physical run
      return (blocks.flatMap fun block => block.slice 0 blockSize, run)
    else do
      let block ← readBlock physical
      return (block.slice place chunk, 1)

/-- The loop of `nxfs_read_file_range`. Every round goes on by at least one block. -/
def readRangeLoop (inode : Inode) (req : ReadRequest) : Nat → Nat → Nat → FsM (List UInt8)
  | 0, _, _ => return []
  | fuel + 1, blockIndex, done =>
    if blockIndex < req.lastBlock ∧ done < req.bufferSize then do
      let (piece, count) ← readPiece inode req blockIndex done
      let rest ← readRangeLoop inode req fuel (blockIndex + count) (done + piece.length)
      return piece ++ rest
    else return []

/-- The bytes read; their number is what the source returns beside them. -/
def readFileRange (inode : Inode) (offset bufferSize : Nat) : FsM (List UInt8) := do
  require (inode.type = typeFile ∧ offset ≤ inode.size)
  if bufferSize = 0 ∨ offset = inode.size then return []
  else
    let requestEnd :=
      if inode.size - offset < bufferSize then inode.size else (offset + bufferSize) % wordLimit
    let lastBlock := min ((requestEnd + blockSize - 1) % wordLimit / blockSize) inode.blockCount
    readRangeLoop inode ⟨offset, bufferSize, requestEnd, lastBlock⟩ lastBlock (offset / blockSize) 0

/-- Change the mode and the owner in the caller's inode and store it. -/
def setInodeMetadata (super : Super) (index : Nat) (inode : Inode) (mode uid gid : Nat) :
    FsM Inode := do
  let current := { inode with mode := mode, uid := uid, gid := gid }
  writeInode super index current
  return current

/-- The inode of an empty file. -/
def Inode.truncated (inode : Inode) : Inode :=
  { inode with
    size := 0
    extents := List.replicate extentCount ⟨0, 0⟩
    extents_length := length_noExtents }

/-- A file loses all its blocks. -/
def truncateInode (super : Super) (index : Nat) (inode : Inode) : FsM (Inode × Option Unit) := do
  if inode.type ≠ typeFile then return (inode, none)
  else
    match ← attempt (freeAllExtents super inode) with
    | none => return (inode, none)
    | some () =>
      return (inode.truncated, ← attempt (writeInode super index inode.truncated))

/-- A file is removed. -/
def unlinkPath (super : Super) (path : List UInt8) : FsM Unit := do
  let (parentIndex, parent, name) ← resolveParentDir super path
  let (index, inode) ← lookupPath super path
  require (inode.type = typeFile)
  freeAllExtents super inode
  writeInode super index Inode.zero
  let _ ← dirRemoveEntry super parentIndex parent name
  return ()

/-- An empty directory is removed. -/
def rmdirPath (super : Super) (path : List UInt8) : FsM Unit := do
  let (parentIndex, parent, name) ← resolveParentDir super path
  let (index, dir) ← lookupPath super path
  require (dir.type = typeDir ∧ index ≠ rootInode)
  let empty ← dirIsEmpty dir
  require (empty = true)
  freeAllExtents super dir
  writeInode super index Inode.zero
  let parent ← dirRemoveEntry super parentIndex parent name
  writeInode super parentIndex { parent with nlink := parent.nlink - 1 }

end NexOS.Nxfs
