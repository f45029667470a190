import NexOS.Nxfs.FileBytes
import NexOS.Nxfs.Operations

/-! # Reading in runs and block by block

What a read returns does not depend on how its blocks lie on the disk: the bytes are
those that one gets by looking up every block of the request and reading it alone. The
two agree except where 32 bits end. A request that ends in the last block below `2 ^ 32`
reads nothing, and a run goes on from block `2 ^ 31 - 1` to block `2 ^ 31`, whose number
is refused where it is looked at.
-/

namespace NexOS.Nxfs

open Disk List Nat

open Program (require ofOption)

/-! ## Block by block -/

/-- The bytes from `offset` to `stop` of the listed blocks of a file, each of them looked
up and read alone. -/
def readEach (inode : Inode) (offset stop : Nat) : List Nat → FsM (List UInt8)
  | [] => return []
  | k :: rest => do
      let physical ← ofOption (inode.logicalToPhysical k)
      let block ← readBlock physical
      let later ← readEach inode offset stop rest
      let start := max offset (k * blockSize)
      return block.slice (start - k * blockSize) (min stop ((k + 1) * blockSize) - start) ++ later

/-- Where a request ends: at the end of the file, of the buffer or of the blocks. -/
def Inode.requestStop (inode : Inode) (offset bufferSize : Nat) : Nat :=
  min (min inode.size (offset + bufferSize)) (inode.blockCount * blockSize)

/-- The blocks of a file that a range touches. -/
def blocksBetween (offset stop : Nat) : List Nat :=
  List.range' (offset / blockSize) ((stop + blockSize - 1) / blockSize - offset / blockSize)

/-- What reading part of a file is to return: one block after another. -/
def readByBlocks (inode : Inode) (offset bufferSize : Nat) : FsM (List UInt8) := do
  require (inode.type = typeFile ∧ offset ≤ inode.size)
  let stop := inode.requestStop offset bufferSize
  if offset < stop then readEach inode offset stop (blocksBetween offset stop) else return []

section ReadEach

variable {inode : Inode} {req : ReadRequest} {stop : Nat}

lemma exec_readEach_none {ks : List Nat} (hsome : ∃ k ∈ ks, 2 ^ 31 ≤ inode.physicalWord k)
    (offset : Nat) (d : Disk) :
    (readEach inode offset stop ks).exec serve d = (none, d) := by
  induction ks with
  | nil => exact absurd hsome (by simp)
  | cons k rest ih =>
    unfold readEach
    rw [inode.logicalToPhysical_eq_word]
    by_cases hsmall : inode.physicalWord k < 2 ^ 31
    · have hlater : ∃ k ∈ rest, 2 ^ 31 ≤ inode.physicalWord k := by
        obtain ⟨first, hmem, hlarge⟩ := hsome
        rcases mem_cons.mp hmem with rfl | hrest
        · exact absurd hsmall (Nat.not_lt_of_le hlarge)
        · exact ⟨first, hrest, hlarge⟩
      have hread : (readBlock (inode.physicalWord k)).exec serve d =
          (some (d (UInt32.ofNat (inode.physicalWord k))), d) := rfl
      rw [if_pos hsmall, Program.exec_bind_of_some _ (Program.exec_ofOption _ _ _),
        Program.exec_bind_of_some _ hread, Program.exec_bind_of_none _ (ih hlater)]
    · rw [if_neg hsmall]
      rfl

lemma exec_readEach_some {ks : List Nat} (hall : ∀ k ∈ ks, inode.physicalWord k < 2 ^ 31)
    (hpiece : ∀ k ∈ ks, max req.offset (k * blockSize) = req.position k ∧
      min stop ((k + 1) * blockSize) = req.position (k + 1)) (d : Disk) :
    (readEach inode req.offset stop ks).exec serve d =
      (some (ks.flatMap (pieceOf inode req d)), d) := by
  induction ks with
  | nil => rfl
  | cons k rest ih =>
    rw [forall_mem_cons] at hall hpiece
    have hread : (readBlock (inode.physicalWord k)).exec serve d =
        (some (d (UInt32.ofNat (inode.physicalWord k))), d) := rfl
    unfold readEach
    rw [inode.logicalToPhysical_eq_word, if_pos hall.1,
      Program.exec_bind_of_some _ (Program.exec_ofOption _ _ _),
      Program.exec_bind_of_some _ hread, Program.exec_bind_of_some _ (ih hall.2 hpiece.2)]
    rw [hpiece.1.1, hpiece.1.2]
    rfl

lemma exec_readRangeLoop_end {fuel k : Nat} (hlast : req.lastBlock ≤ k) (done : Nat) (d : Disk) :
    (readRangeLoop inode req fuel k done).exec serve d = (some [], d) := by
  cases fuel with
  | zero => rfl
  | succ fuel =>
    rw [readRangeLoop, if_neg fun hboth => Nat.not_lt_of_le hlast hboth.1]
    rfl

end ReadEach

/-! ## The law -/

namespace Inode

variable (inode : Inode) (offset bufferSize : Nat)

/-- The read that an offset and a buffer ask for. -/
def request : ReadRequest where
  offset := offset
  bufferSize := bufferSize
  requestEnd := min inode.size (offset + bufferSize)
  lastBlock := min ((min inode.size (offset + bufferSize) + blockSize - 1) / blockSize)
    inode.blockCount

/-- A block of the request has a number that is negative as an `int`. -/
def Negative (k : Nat) : Prop :=
  k ∈ blocksBetween offset (inode.requestStop offset bufferSize) ∧ 2 ^ 31 ≤ inode.physicalWord k

/-- If the request has a byte, it ends before the last block below `2 ^ 32`, and if it
has a negative block, one of them begins a run. -/
def ReadsAlike : Prop :=
  inode.type = typeFile → offset ≤ inode.size → offset < inode.requestStop offset bufferSize →
    min inode.size (offset + bufferSize) + blockSize ≤ wordLimit ∧
      ((∃ k, inode.Negative offset bufferSize k) → ∃ k, inode.Negative offset bufferSize k ∧
          runPlace inode (inode.request offset bufferSize) k = 0)

variable {inode offset bufferSize}

lemma mem_blocksBetween {stop k : Nat} : k ∈ blocksBetween offset stop ↔
      offset < (k + 1) * blockSize ∧ k * blockSize < stop := by
  unfold blocksBetween blockSize
  rw [mem_range'_1]
  omega

lemma request_inside (hless : offset < inode.requestStop offset bufferSize)
    (hsmall : min inode.size (offset + bufferSize) + blockSize ≤ wordLimit) :
    (inode.request offset bufferSize).Inside inode := by
  refine ⟨?_, min_le_left _ _, ?_, ?_, hsmall⟩
  · exact hless.trans_le (min_le_left _ _)
  · change min inode.size (offset + bufferSize) - offset ≤ bufferSize
    omega
  · intro k hk
    have hdiv := hk.trans_le (min_le_left _ _)
    change k * blockSize < min inode.size (offset + bufferSize)
    unfold blockSize at hdiv ⊢
    omega

/-- The blocks that the loop comes to are those of the request. -/
lemma blocksBetween_eq : blocksBetween offset (inode.requestStop offset bufferSize) =
      List.range' (offset / blockSize)
        ((inode.request offset bufferSize).lastBlock - offset / blockSize) := by
  have hlast : (inode.requestStop offset bufferSize + blockSize - 1) / blockSize =
      (inode.request offset bufferSize).lastBlock := by
    unfold requestStop request
    dsimp only
    unfold blockSize
    omega
  rw [blocksBetween, hlast]

lemma exec_readByBlocks (hfile : inode.type = typeFile ∧ offset ≤ inode.size) (d : Disk) :
    (readByBlocks inode offset bufferSize).exec serve d =
      if offset < inode.requestStop offset bufferSize then
        (readEach inode offset (inode.requestStop offset bufferSize)
          (blocksBetween offset (inode.requestStop offset bufferSize))).exec serve d
      else (some [], d) := by
  have hreq : (require (inode.type = typeFile ∧ offset ≤ inode.size) : FsM Unit).exec
      serve d = (some (), d) := by
    rw [Program.exec_require, if_pos hfile]
  unfold readByBlocks
  rw [Program.exec_bind_of_some _ hreq]
  dsimp only
  split
  · rfl
  · rfl

/-- The read of the source, up to its loop. If the request ends in the last block below
`2 ^ 32`, the number of the block behind it wraps to 0. -/
lemma exec_readFileRange_loop (hsize : inode.size < wordLimit)
    (hfile : inode.type = typeFile ∧ offset ≤ inode.size) (d : Disk) :
    (readFileRange inode offset bufferSize).exec serve d =
      if offset < inode.requestStop offset bufferSize ∧
          min inode.size (offset + bufferSize) + blockSize ≤ wordLimit then
        (readRangeLoop inode (inode.request offset bufferSize)
          (inode.request offset bufferSize).lastBlock (offset / blockSize) 0).exec serve d
      else (some [], d) := by
  have hreq : (require (inode.type = typeFile ∧ offset ≤ inode.size) : FsM Unit).exec
      serve d = (some (), d) := by
    rw [Program.exec_require, if_pos hfile]
  have hpos : 0 < blockSize := by decide
  have hword : blockSize < wordLimit := by decide
  unfold readFileRange
  rw [Program.exec_bind_of_some _ hreq]
  split
  · rw [if_neg]
    · rfl
    · unfold requestStop
      omega
  dsimp only
  have hend : (if inode.size - offset < bufferSize then inode.size
      else (offset + bufferSize) % wordLimit) = min inode.size (offset + bufferSize) := by
    split
    · omega
    · rw [mod_eq_of_lt (by omega)]
      omega
  rw [hend]
  by_cases hsmall : min inode.size (offset + bufferSize) + blockSize ≤ wordLimit
  · rw [mod_eq_of_lt (show min inode.size (offset + bufferSize) + blockSize - 1 < wordLimit by
      omega)]
    by_cases hless : offset < inode.requestStop offset bufferSize
    · rw [if_pos ⟨hless, hsmall⟩]
      rfl
    rw [if_neg fun hboth => hless hboth.1]
    have hbehind : inode.blockCount ≤ offset / blockSize := by
      rw [le_div_iff_mul_le hpos]
      unfold requestStop at hless
      omega
    exact exec_readRangeLoop_end (le_trans (min_le_right _ _) hbehind) 0 d
  · rw [if_neg fun hboth => hsmall hboth.2]
    have hwrapped : (min inode.size (offset + bufferSize) + blockSize - 1) % wordLimit / blockSize =
        0 := by
      rw [mod_eq_sub_mod (by omega), mod_eq_of_lt (by omega), div_eq_of_lt (by omega)]
    rw [hwrapped]
    rfl

/-- A block that is read gives at least one byte. -/
lemma exec_readEach_ne_nil {stop k : Nat} (hbytes : max offset (k * blockSize) <
      min stop ((k + 1) * blockSize)) (rest : List Nat) (d : Disk) :
    ((readEach inode offset stop (k :: rest)).exec serve d).1 ≠ some [] := by
  unfold readEach
  rw [Program.exec_bind, Program.exec_ofOption]
  rcases inode.logicalToPhysical k with _ | physical
  · exact nofun
  have hread : (readBlock physical).exec serve d = (some (d (UInt32.ofNat physical)), d) := rfl
  dsimp only
  rw [Program.exec_bind_of_some _ hread, Program.exec_bind]
  generalize (readEach inode offset stop rest).exec serve d = result
  obtain ⟨later, d'⟩ := result
  rcases later with _ | later
  · exact nofun
  dsimp only
  rw [Program.exec_pure, ne_eq, Option.some.injEq, append_eq_nil_iff]
  intro hnil
  have hlen := congrArg List.length hnil.1
  rw [Block.slice, length_map, length_range, length_nil] at hlen
  omega

lemma blocksBetween_cons {stop : Nat} (hless : offset < stop) :
    ∃ rest, blocksBetween offset stop = offset / blockSize :: rest := by
  have hcount : (stop + blockSize - 1) / blockSize - offset / blockSize =
      (stop + blockSize - 1) / blockSize - offset / blockSize - 1 + 1 := by
    unfold blockSize
    omega
  rw [blocksBetween, hcount]
  exact ⟨_, rfl⟩

/-- What the pieces of the request are, block by block. -/
lemma exec_readEach_request (hless : offset < inode.requestStop offset bufferSize)
    (hsmall : min inode.size (offset + bufferSize) + blockSize ≤ wordLimit)
    (hall : ¬∃ k, inode.Negative offset bufferSize k) (d : Disk) :
    (readEach inode offset (inode.requestStop offset bufferSize)
        (blocksBetween offset (inode.requestStop offset bufferSize))).exec serve d =
      (some (piecesOf inode (inode.request offset bufferSize) d (offset / blockSize)
        ((inode.request offset bufferSize).lastBlock - offset / blockSize)), d) := by
  have hins := request_inside hless hsmall
  have hwords : ∀ k ∈ blocksBetween offset (inode.requestStop offset bufferSize),
      inode.physicalWord k < 2 ^ 31 :=
    fun k hk => Nat.lt_of_not_le fun hlarge => hall ⟨k, hk, hlarge⟩
  have hpiece : ∀ k ∈ blocksBetween offset (inode.requestStop offset bufferSize),
      max offset (k * blockSize) = (inode.request offset bufferSize).position k ∧
        min (inode.requestStop offset bufferSize) ((k + 1) * blockSize) =
          (inode.request offset bufferSize).position (k + 1) := by
    intro k hk
    have hbetween := mem_blocksBetween.mp hk
    have hlast : k < (inode.request offset bufferSize).lastBlock := by
      rw [blocksBetween_eq, mem_range'_1] at hk
      omega
    have hcount : (k + 1) * blockSize ≤ inode.blockCount * blockSize :=
      mul_le_mul_right blockSize (hlast.trans_le (min_le_right _ _))
    have hnext := (hins.position_succ hbetween.1 hlast).1
    refine ⟨(hins.position_eq hlast).symm, ?_⟩
    rw [hnext]
    change min (min (min inode.size (offset + bufferSize)) (inode.blockCount * blockSize))
      ((k + 1) * blockSize) = min ((k + 1) * blockSize) (min inode.size (offset + bufferSize))
    omega
  have hpieces := @exec_readEach_some inode (inode.request offset bufferSize)
    (inode.requestStop offset bufferSize) _ hwords hpiece d
  refine hpieces.trans ?_
  rw [blocksBetween_eq]
  rfl

/-- A run of the request is refused if it begins with a negative block. -/
lemma refused_iff : Refused inode (inode.request offset bufferSize) (offset / blockSize) ↔
      ∃ k, inode.Negative offset bufferSize k ∧
        runPlace inode (inode.request offset bufferSize) k = 0 := by
  unfold Refused Negative
  rw [blocksBetween_eq]
  constructor
  · rintro ⟨k, hle, hlt, hplace, hlarge⟩
    exact ⟨k, ⟨mem_range'_1.mpr (by omega), hlarge⟩, hplace⟩
  · rintro ⟨k, ⟨hmem, hlarge⟩, hplace⟩
    rw [mem_range'_1] at hmem
    exact ⟨k, by omega, by omega, hplace, hlarge⟩

/-- What the loop of the source returns: it fails where a run is refused. -/
lemma exec_readFileRange_runs (hsize : inode.size < wordLimit)
    (hfile : inode.type = typeFile ∧ offset ≤ inode.size)
    (hless : offset < inode.requestStop offset bufferSize)
    (hsmall : min inode.size (offset + bufferSize) + blockSize ≤ wordLimit) (d : Disk) :
    ((∃ k, inode.Negative offset bufferSize k ∧
        runPlace inode (inode.request offset bufferSize) k = 0) →
      (readFileRange inode offset bufferSize).exec serve d = (none, d)) ∧
    ((¬∃ k, inode.Negative offset bufferSize k ∧
        runPlace inode (inode.request offset bufferSize) k = 0) →
      (readFileRange inode offset bufferSize).exec serve d =
        (some (piecesOf inode (inode.request offset bufferSize) d (offset / blockSize)
          ((inode.request offset bufferSize).lastBlock - offset / blockSize)), d)) := by
  have hins := request_inside hless hsmall
  have hpos : 0 < blockSize := by decide
  have hfirst := div_mul_le_self offset blockSize
  have hbegin : (inode.request offset bufferSize).position (offset / blockSize) - offset = 0 := by
    unfold ReadRequest.position reached request
    dsimp only
    omega
  have hnext : offset < (offset / blockSize + 1) * blockSize := by
    rw [add_mul]
    exact lt_div_mul_add hpos
  have hloop := exec_readRangeLoop_runs hins d (le_add_left _ (offset / blockSize)) hnext
    fun _ => runPlace_first hfirst
  rw [show (inode.request offset bufferSize).offset = offset from rfl, hbegin, refused_iff] at hloop
  rw [exec_readFileRange_loop hsize hfile, if_pos ⟨hless, hsmall⟩]
  exact hloop

lemma readFileRange_blockwise_disk (hsize : inode.size < wordLimit) (d : Disk) :
    ((readFileRange inode offset bufferSize).exec serve d).1 =
        ((readByBlocks inode offset bufferSize).exec serve d).1 ↔
      inode.ReadsAlike offset bufferSize := by
  by_cases hfile : inode.type = typeFile ∧ offset ≤ inode.size
  · rw [exec_readByBlocks hfile]
    by_cases hless : offset < inode.requestStop offset bufferSize
    · rw [if_pos hless]
      by_cases hsmall : min inode.size (offset + bufferSize) + blockSize ≤ wordLimit
      · obtain ⟨hnone, hpieces⟩ := exec_readFileRange_runs hsize hfile hless hsmall d
        have halike : inode.ReadsAlike offset bufferSize ↔
            ((∃ k, inode.Negative offset bufferSize k) → ∃ k, inode.Negative offset bufferSize k ∧
                runPlace inode (inode.request offset bufferSize) k = 0) :=
          ⟨fun h => (h hfile.1 hfile.2 hless).2, fun h _ _ _ => ⟨hsmall, h⟩⟩
        rw [halike]
        by_cases hsome : ∃ k, inode.Negative offset bufferSize k
        · rw [exec_readEach_none hsome]
          by_cases hrefuse : ∃ k, inode.Negative offset bufferSize k ∧
              runPlace inode (inode.request offset bufferSize) k = 0
          · rw [hnone hrefuse]
            exact ⟨fun _ _ => hrefuse, fun _ => rfl⟩
          · rw [hpieces hrefuse]
            exact ⟨nofun, fun h => absurd (h hsome) hrefuse⟩
        · rw [exec_readEach_request hless hsmall hsome, hpieces]
          · exact ⟨fun _ h => absurd h hsome, fun _ => rfl⟩
          · rintro ⟨k, hnegative, -⟩
            exact hsome ⟨k, hnegative⟩
      · -- the number of the last block has wrapped, and nothing is read
        rw [exec_readFileRange_loop hsize hfile, if_neg fun hboth => hsmall hboth.2]
        obtain ⟨rest, hcons⟩ := blocksBetween_cons hless
        have hmem : offset / blockSize ∈
            blocksBetween offset (inode.requestStop offset bufferSize) := by
          rw [hcons]
          exact mem_cons_self
        have hbytes : max offset (offset / blockSize * blockSize) <
            min (inode.requestStop offset bufferSize) ((offset / blockSize + 1) * blockSize) := by
          have hbetween := mem_blocksBetween.mp hmem
          have hfirst := div_mul_le_self offset blockSize
          omega
        rw [hcons]
        exact ⟨fun heq => absurd heq.symm (exec_readEach_ne_nil hbytes rest d),
          fun h => absurd (h hfile.1 hfile.2 hless).1 hsmall⟩
    · rw [exec_readFileRange_loop hsize hfile, if_neg hless, if_neg fun hboth => hless hboth.1]
      exact ⟨fun _ _ _ h => absurd h hless, fun _ => rfl⟩
  · have hreq : (require (inode.type = typeFile ∧ offset ≤ inode.size) : FsM Unit).exec
        serve d = (none, d) := by
      rw [Program.exec_require, if_neg hfile]
    unfold readFileRange readByBlocks
    rw [Program.exec_bind_of_none _ hreq, Program.exec_bind_of_none _ hreq]
    exact ⟨fun _ htype hle => absurd ⟨htype, hle⟩ hfile, fun _ => rfl⟩

end Inode

/-- A read in runs returns what a read block by block returns, on every array of blocks
and on every coherent volume that serves both, if and only if the request keeps clear of
the ends of 32 bits. -/
theorem readFileRange_blockwise_iff (inode : Inode) (hsize : inode.size < wordLimit)
    (offset bufferSize : Nat) :
    (∀ d : Disk, ((readFileRange inode offset bufferSize).exec serve d).1 =
        ((readByBlocks inode offset bufferSize).exec serve d).1 ↔
      inode.ReadsAlike offset bufferSize) ∧
    ∀ vol : Volume, vol.Coherent →
      (readFileRange inode offset bufferSize).Meets Volume.serve Volume.Serves vol →
      (readByBlocks inode offset bufferSize).Meets Volume.serve Volume.Serves vol →
      (((readFileRange inode offset bufferSize).exec Volume.serve vol).1 =
          ((readByBlocks inode offset bufferSize).exec Volume.serve vol).1 ↔
        inode.ReadsAlike offset bufferSize) := by
  refine ⟨fun d => Inode.readFileRange_blockwise_disk hsize d, ?_⟩
  intro vol hvol hruns hblocks
  rw [(hvol.exec _ hruns).1, (hvol.exec _ hblocks).1]
  exact Inode.readFileRange_blockwise_disk hsize vol.contents

/-- A file of `size` bytes in two extents. -/
def fileIn (size : Nat) (first second : Extent) : Inode where
  used := 1
  size := size
  type := typeFile
  mode := 0
  uid := 0
  gid := 0
  nlink := 1
  atime := 0
  mtime := 0
  ctime := 0
  extents := first :: second :: List.replicate 6 ⟨0, 0⟩
  extents_length := rfl

/-- Two extents that follow one another are read at once: 700 bytes from the middle of
the first to the middle of the last of three blocks. -/
theorem readFileRange_blockwise_small :
    let inode := fileIn 1500 ⟨5, 1⟩ ⟨6, 2⟩
    let vol := Volume.mounted ⟨fun lba _ => UInt8.ofNat lba, 16⟩ 2
    ((readFileRange inode 500 700).exec Volume.serve vol).1 =
      ((readByBlocks inode 500 700).exec Volume.serve vol).1 := by
  have halike : (fileIn 1500 ⟨5, 1⟩ ⟨6, 2⟩).ReadsAlike 500 700 := by
    refine fun _ _ _ => ⟨by decide, ?_⟩
    rintro ⟨k, hmem, hlarge⟩
    have hsmall : ∀ k ∈ blocksBetween 500 ((fileIn 1500 ⟨5, 1⟩ ⟨6, 2⟩).requestStop 500 700),
        (fileIn 1500 ⟨5, 1⟩ ⟨6, 2⟩).physicalWord k < 2 ^ 31 := by decide
    exact absurd (hsmall k hmem) (Nat.not_lt_of_le hlarge)
  exact ((readFileRange_blockwise_iff _ (by decide) 500 700).2 _
    (Volume.mounted_coherent (by decide) 2) (by decide +kernel) (by decide +kernel)).mpr halike

/-- Of a file that ends just below `2 ^ 32` the last bytes are not read, and two blocks
next to each other at `2 ^ 31` are read together though the second is refused alone. -/
theorem readFileRange_not_blockwise :
    (((readFileRange (fileIn (2 ^ 32 - 1) ⟨1000, 2 ^ 23⟩ ⟨0, 0⟩) (2 ^ 32 - 10) 5).exec serve
        fun _ _ => 7).1 = some [] ∧
      ((readByBlocks (fileIn (2 ^ 32 - 1) ⟨1000, 2 ^ 23⟩ ⟨0, 0⟩) (2 ^ 32 - 10) 5).exec serve
        fun _ _ => 7).1 = some [7, 7, 7, 7, 7]) ∧
    (((readFileRange (fileIn 1024 ⟨2 ^ 31 - 1, 2⟩ ⟨0, 0⟩) 0 1024).exec serve
        fun _ _ => 7).1 = some (List.replicate 1024 7) ∧
      ((readByBlocks (fileIn 1024 ⟨2 ^ 31 - 1, 2⟩ ⟨0, 0⟩) 0 1024).exec serve
        fun _ _ => 7).1 = none) := by
  decide +kernel

/-! ## Reading through a descriptor -/

/-- `vfs_read_from_nxfs`: the bytes, and the offset of the next read. -/
def vfsRead (inode : Inode) (offset size : Nat) : FsM (List UInt8 × Nat) := do
  let bytes ← readFileRange inode offset size
  return (bytes, (offset + bytes.length) % wordLimit)

/-- Reads of the given sizes, one after the other. -/
def vfsReads (inode : Inode) : Nat → List Nat → FsM (List UInt8 × Nat)
  | offset, [] => return ([], offset)
  | offset, size :: rest => do
      let (bytes, offset) ← vfsRead inode offset size
      let (later, offset) ← vfsReads inode offset rest
      return (bytes ++ later, offset)

section

variable {inode : Inode} {limit : Nat} (hbound : inode.Bounded limit) (hread : inode.Readable)
  (htype : inode.type = typeFile) (sizes : List Nat) {start : Nat} (hstart : start ≤ inode.size)

include hbound hread htype hstart

lemma exec_vfsReads (d : Disk) : (vfsReads inode start sizes).exec serve d =
    (some (inode.bytes d start (min sizes.sum (inode.size - start)),
      min (start + sizes.sum) inode.size), d) := by
  induction sizes generalizing start with
  | nil => simp [vfsReads, Inode.bytes, hstart]
  | cons size rest ih =>
    have hsmall := hread.small
    have hpos : 0 < blockSize := by decide
    generalize hcount : min size (inode.size - start) = count
    have hone : (vfsRead inode start size).exec serve d =
        (some (inode.bytes d start count, start + count), d) := by
      rw [vfsRead,
        Program.exec_bind_of_some _ (exec_readFileRange hbound hread htype d hstart size),
        hcount, Inode.bytes, length_map, length_range', mod_eq_of_lt (by omega)]
      rfl
    rw [vfsReads, Program.exec_bind_of_some _ hone, Program.exec_bind_of_some _ (ih (by omega)),
      sum_cons]
    have hsum : min (size + rest.sum) (inode.size - start) =
        count + min rest.sum (inode.size - (start + count)) := by omega
    rw [hsum, Inode.bytes_append]
    rw [show min (start + (size + rest.sum)) inode.size =
      min (start + count + rest.sum) inode.size by omega]
    rfl

/-- However the reads of a file are cut, from an offset in it on they return its bytes on the
device one after the other, through the cache and in runs, and the offset is behind the last of
them. -/
theorem vfsReads_in_order {vol : Volume} (hvol : vol.Coherent)
    (hmeets : (vfsReads inode start sizes).Meets Volume.serve Volume.Serves vol) :
    ((vfsReads inode start sizes).exec Volume.serve vol).1 =
      some (inode.bytes vol.contents start (min sizes.sum (inode.size - start)),
        min (start + sizes.sum) inode.size) := by
  rw [(hvol.exec _ hmeets).1, exec_vfsReads hbound hread htype sizes hstart]

end

/-- The first read takes two blocks of two extents in one run and a part of the third block. -/
theorem vfsReads_in_order_small :
    ((vfsReads (fileIn 1500 ⟨5, 1⟩ ⟨6, 2⟩) 0 [1200, 500]).exec Volume.serve
      (Volume.mounted ⟨fun lba k => UInt8.ofNat (3 * lba + k), 16⟩ 2)).1 =
      some ((List.range 1500).map fun p => UInt8.ofNat (3 * (7 + p / 512) + p % 512), 1500) := by
  have hread := @vfsReads_in_order (fileIn 1500 ⟨5, 1⟩ ⟨6, 2⟩) 8 ⟨by decide, by decide, by decide⟩
    ⟨by decide, fun k hk => ?_⟩ rfl [1200, 500] 0 (by decide)
    (Volume.mounted ⟨fun lba k => UInt8.ofNat (3 * lba + k), 16⟩ 2)
    (Volume.mounted_coherent (by decide) 2) (by decide +kernel)
  · rw [hread]
    decide +kernel
  have hlt : k < 3 := by
    change k * 512 < 1500 at hk
    omega
  interval_cases k
  · exact ⟨5, rfl, by decide⟩
  · exact ⟨6, rfl, by decide⟩
  · exact ⟨7, rfl, by decide⟩

end NexOS.Nxfs
