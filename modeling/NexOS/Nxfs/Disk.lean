import NexOS.Nxfs.BlockIo

/-! # The volume as an array of blocks

What the block I/O of a volume is for: an array of blocks, read and written by
whole blocks and by byte ranges. Addresses count modulo `2 ^ 32`, as in the
code; a batch of a byte range runs on into the next block numbers.
-/

namespace NexOS.Nxfs

/-- The blocks of a volume, without a cache. -/
abbrev Disk : Type := UInt32 → Block

namespace Disk

def readBlocks (d : Disk) (start : UInt32) : Nat → List Block
  | 0 => []
  | count + 1 => d start :: d.readBlocks (start + 1) count

def writeBlocks (d : Disk) (start : UInt32) : List Block → Disk
  | [] => d
  | data :: rest => writeBlocks (Function.update d start data) (start + 1) rest

/-- A byte of the volume. -/
def byteAt (d : Disk) (address : Nat) : UInt8 :=
  (d (UInt32.ofNat (address % wordLimit / blockSize))).byte (address % wordLimit % blockSize)

/-- Bytes from any position. -/
def readBytes (d : Disk) (offset size : Nat) : List UInt8 :=
  (List.range size).map fun i => d.byteAt (offset + i)

/-- Copy bytes over consecutive blocks, from `offset` in the first block on. -/
def patchBlocks : List Block → Nat → List UInt8 → List Block
  | [], _, _ => []
  | block :: rest, offset, src =>
    if src.isEmpty then block :: rest
    else
      block.patch offset (src.take (blockSize - offset)) ::
        patchBlocks rest 0 (src.drop (blockSize - offset))

/-- The number of blocks that a byte range starting inside a block touches. -/
def blockSpan (offset length : Nat) : Nat := (offset + length + blockSize - 1) / blockSize

/-- Bytes within a few blocks. -/
def writeBatch (d : Disk) (start : UInt32) (offset : Nat) (src : List UInt8) : Disk :=
  d.writeBlocks start (patchBlocks (d.readBlocks start (blockSpan offset src.length)) offset src)

/-- The batches of a write. -/
def writeBytesLoop : Nat → Disk → Nat → List UInt8 → Disk
  | 0, d, _, _ => d
  | fuel + 1, d, offset, src =>
    if src.isEmpty then d
    else
      let absolute := offset % wordLimit
      let batchLen := min src.length (blockSize * 8 - absolute % blockSize)
      writeBytesLoop fuel (d.writeBatch (UInt32.ofNat (absolute / blockSize)) (absolute % blockSize)
          (src.take batchLen))
        (offset + batchLen) (src.drop batchLen)

def writeBytes (d : Disk) (offset : Nat) (src : List UInt8) : Disk :=
  writeBytesLoop src.length d offset src

/-! ## Runs of blocks -/

lemma length_readBlocks (d : Disk) (start : UInt32) (count : Nat) :
    (d.readBlocks start count).length = count := by
  induction count generalizing start with
  | zero => rfl
  | succ count ih => simp [readBlocks, ih]

lemma length_patchBlocks (blocks : List Block) (off : Nat) (src : List UInt8) :
    (patchBlocks blocks off src).length = blocks.length := by
  induction blocks generalizing off src with
  | nil => rfl
  | cons block rest ih =>
    unfold patchBlocks
    split
    · rfl
    · simp [ih]

lemma add_ofNat_succ (start : UInt32) (i : Nat) :
    start + UInt32.ofNat (i + 1) = start + 1 + UInt32.ofNat i := by
  rw [Nat.add_comm, UInt32.ofNat_add, ← UInt32.add_assoc]
  rfl

lemma readBlocks_add (d : Disk) (start : UInt32) (first second : Nat) :
    d.readBlocks start (first + second) =
      d.readBlocks start first ++ d.readBlocks (start + UInt32.ofNat first) second := by
  induction first generalizing start with
  | zero => simp [readBlocks]
  | succ first ih =>
    rw [Nat.add_right_comm, readBlocks, readBlocks, ih, List.cons_append, add_ofNat_succ]

lemma getElem?_readBlocks (d : Disk) (start : UInt32) (count i : Nat) (hi : i < count) :
    (d.readBlocks start count)[i]? = some (d (start + UInt32.ofNat i)) := by
  induction count generalizing start i with
  | zero => exact absurd hi (Nat.not_lt_zero i)
  | succ count ih =>
    cases i with
    | zero => simp [readBlocks]
    | succ i =>
      rw [readBlocks, List.getElem?_cons_succ, ih (start + 1) i (by omega), add_ofNat_succ]

/-- The position of a block in a run that starts one block later. -/
lemma toNat_sub_succ {block start : UInt32} (hne : block ≠ start) :
    (block - start).toNat = (block - (start + 1)).toNat + 1 := by
  have hne' : block.toNat ≠ start.toNat := fun heq => hne (UInt32.toNat_inj.mp heq)
  have hblock := block.toNat_lt
  have hstart := start.toNat_lt
  have hone : (1 : UInt32).toNat = 1 := rfl
  rw [UInt32.toNat_sub, UInt32.toNat_sub, UInt32.toNat_add]
  omega

lemma toNat_sub_self_succ (start : UInt32) : (start - (start + 1)).toNat = 2 ^ 32 - 1 := by
  have hone : (1 : UInt32).toNat = 1 := rfl
  rw [UInt32.toNat_sub, UInt32.toNat_add]
  omega

/-- A run of blocks, seen from one block. -/
lemma writeBlocks_apply (d : Disk) (start : UInt32) (data : List Block)
    (hlen : data.length ≤ wordLimit) (block : UInt32) :
    d.writeBlocks start data block = (data[(block - start).toNat]?).getD (d block) := by
  induction data generalizing d start with
  | nil => simp [writeBlocks]
  | cons first rest ih =>
    have hrest : rest.length < wordLimit := hlen
    rw [writeBlocks, ih _ _ hrest.le]
    by_cases heq : block = start
    · subst heq
      have hlast : rest.length ≤ (block - (block + 1)).toNat := by
        rw [toNat_sub_self_succ]
        exact Nat.le_sub_one_of_lt hrest
      rw [List.getElem?_eq_none hlast]
      simp
    · rw [toNat_sub_succ heq, List.getElem?_cons_succ, Function.update_of_ne heq]

lemma readBlocks_congr {d d' : Disk} (start : UInt32) (count : Nat)
    (hsame : ∀ i < count, d' (start + UInt32.ofNat i) = d (start + UInt32.ofNat i)) :
    d'.readBlocks start count = d.readBlocks start count := by
  apply List.ext_getElem?
  intro i
  by_cases hi : i < count
  · rw [getElem?_readBlocks _ _ _ _ hi, getElem?_readBlocks _ _ _ _ hi, hsame i hi]
  rw [List.getElem?_eq_none, List.getElem?_eq_none]
  · rw [length_readBlocks]
    omega
  · rw [length_readBlocks]
    omega

/-- Writing back what was read changes nothing. -/
lemma writeBlocks_readBlocks (d : Disk) (start : UInt32) (count : Nat) :
    d.writeBlocks start (d.readBlocks start count) = d := by
  induction count generalizing start with
  | zero => rfl
  | succ count ih => rw [readBlocks, writeBlocks, Function.update_eq_self, ih]

/-- A block before a run is not read with the run. -/
lemma readBlocks_update (d : Disk) (start : UInt32) (data : Block) (count : Nat)
    (hcount : count < wordLimit) :
    Disk.readBlocks (Function.update d start data) (start + 1) count =
      d.readBlocks (start + 1) count := by
  apply readBlocks_congr
  intro i hi
  apply Function.update_of_ne
  intro heq
  rw [← add_ofNat_succ] at heq
  have hzero : UInt32.ofNat (i + 1) = 0 := by simpa using heq
  have hnat := congrArg UInt32.toNat hzero
  rw [UInt32.toNat_ofNat_of_lt' (Nat.lt_of_le_of_lt hi hcount)] at hnat
  exact absurd hnat (Nat.succ_ne_zero i)

end Disk

end NexOS.Nxfs
