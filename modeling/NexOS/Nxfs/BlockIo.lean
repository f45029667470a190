import NexOS.Lib.StampedCache

/-! # Block I/O of a volume

Blocks and byte ranges of a mounted volume are read and written through a small
cache over the block device. The device is an array of blocks that refuses a
request reaching past its end. Buffers are lists, so a request is taken to be
smaller than 4 GiB.
-/

namespace NexOS.Nxfs

def blockSize : Nat := 512

def cacheBlocks : Nat := 64

def wordLimit : Nat := 2 ^ 32

instance : NeZero blockSize := ⟨by decide⟩

instance : NeZero cacheBlocks := ⟨by decide⟩

/-- The bytes of a block. -/
abbrev Block : Type := Fin blockSize → UInt8

namespace Block

def byte (block : Block) (index : Nat) : UInt8 := block (Fin.ofNat blockSize index)

/-- The bytes from `offset` on. -/
def slice (block : Block) (offset length : Nat) : List UInt8 :=
  (List.range length).map fun i => block.byte (offset + i)

/-- Bytes are written over a part of the block. -/
def patch (block : Block) (offset : Nat) (bytes : List UInt8) : Block := fun i =>
  if offset ≤ i.val then (bytes[i.val - offset]?).getD (block i) else block i

end Block

/-! ## The device -/

/-- A block device. -/
structure Device where
  blocks : Nat → Block
  blockCount : Nat

namespace Device

/-- A read within the device. -/
def read (dev : Device) (lba count : Nat) : Option (List Block) :=
  if lba + count ≤ dev.blockCount then
    some ((List.range count).map fun i => dev.blocks (lba + i))
  else none

/-- A write within the device. -/
def write (dev : Device) (lba : Nat) (data : List Block) : Option Device :=
  if lba + data.length ≤ dev.blockCount then
    some { dev with
      blocks := fun i => if lba ≤ i then (data[i - lba]?).getD (dev.blocks i) else dev.blocks i }
  else none

end Device

/-! ## The volume -/

/-- The cache of a volume. -/
abbrev BlockCache : Type := StampedCache.Cache cacheBlocks UInt32 Block

/-- A mounted volume with its cache. -/
structure Volume where
  device : Device
  partitionLba : UInt32
  cache : BlockCache
  dirty : Bool
  writeError : Bool

namespace Volume

/-- The block on the device; the sum wraps. -/
def lba (vol : Volume) (block : UInt32) : Nat := (vol.partitionLba + block).toNat

def cacheGet (vol : Volume) (block : UInt32) : Option Block × Volume :=
  ((vol.cache.get wordLimit block).1, { vol with cache := (vol.cache.get wordLimit block).2 })

def cachePut (vol : Volume) (block : UInt32) (data : Block) : Volume :=
  { vol with cache := vol.cache.put wordLimit block data }

def cacheUpdate (vol : Volume) (block : UInt32) (data : Block) : Volume :=
  { vol with cache := vol.cache.update wordLimit block data }

def cacheInvalidateAll (vol : Volume) : Volume := { vol with cache := vol.cache.clear }

/-- After a failed write the cache is not trusted. -/
def markWriteFailed (vol : Volume) : Volume :=
  { vol with writeError := true, dirty := true }.cacheInvalidateAll

/-- `nxfs_flush`. The flush of the device itself may fail. -/
def flush (vol : Volume) (deviceFlushed : Bool) : Bool × Volume :=
  if vol.writeError then (false, vol)
  else if !vol.dirty then (true, vol)
  else if !deviceFlushed then (false, vol.markWriteFailed)
  else (true, { vol with dirty := false })

/-! ## Whole blocks -/

/-- A block from the cache or from the device. -/
def readBlock (vol : Volume) (block : UInt32) : Option Block × Volume :=
  match vol.cacheGet block with
  | (some cached, vol) => (some cached, vol)
  | (none, vol) =>
    match vol.device.read (vol.lba block) 1 with
    | some [data] => (some data, vol.cachePut block data)
    | _ => (none, vol)

/-- The blocks at the head of a range that are cached, at most `count`. -/
def cachedRun (vol : Volume) (startBlock : UInt32) : Nat → List Block × Volume
  | 0 => ([], vol)
  | count + 1 =>
    match vol.cacheGet startBlock with
    | (none, vol) => ([], vol)
    | (some entry, vol) =>
      let (rest, vol) := vol.cachedRun (startBlock + 1) count
      (entry :: rest, vol)

/-- Blocks in a row enter the cache. -/
def cachePutAll (vol : Volume) (startBlock : UInt32) : List Block → Volume
  | [] => vol
  | data :: rest => (vol.cachePut startBlock data).cachePutAll (startBlock + 1) rest

/-- What the cache holds at the front, and the rest from the device. -/
def readBlocks (vol : Volume) (startBlock : UInt32) (count : Nat) : Option (List Block) × Volume :=
  if count = 0 then (none, vol)
  else
    let (hits, vol) := vol.cachedRun startBlock count
    let cached := hits.length
    if cached = count then (some hits, vol)
    else
      let missing := startBlock + UInt32.ofNat cached
      match vol.device.read (vol.lba missing) (count - cached) with
      | none => (none, vol)
      | some data => (some (hits ++ data), vol.cachePutAll missing data)

/-- A block goes to the device, and to the cache if it is there. -/
def writeBlock (vol : Volume) (block : UInt32) (data : Block) : Bool × Volume :=
  if vol.writeError then (false, vol)
  else
    match vol.device.write (vol.lba block) [data] with
    | none => (false, vol.markWriteFailed)
    | some device => (true, { vol with device := device, dirty := true }.cacheUpdate block data)

/-! ## Byte ranges -/

/-- The loop of `nxfs_read_bytes` from byte `done` on. Every round reads at
least one byte, so `fuel` never runs out before `done` reaches `size`. -/
def readBytesLoop (offset size : Nat) : Nat → Volume → Nat → Option (List UInt8) × Volume
  | 0, vol, _ => (some [], vol)
  | fuel + 1, vol, done =>
    if done < size then
      let absolute := (offset + done) % wordLimit
      let block := UInt32.ofNat (absolute / blockSize)
      let blockOff := absolute % blockSize
      let chunk := min (blockSize - blockOff) (size - done)
      match vol.cacheGet block with
      | (some cached, vol) =>
        let (rest, vol) := readBytesLoop offset size fuel vol (done + chunk)
        (rest.map (cached.slice blockOff chunk ++ ·), vol)
      | (none, vol) =>
        let remaining := (size - done + blockOff + blockSize - 1) % wordLimit / blockSize
        let maxBlocks := min 8 remaining
        match vol.readBlocks block maxBlocks with
        | (some (first :: others), vol) =>
          let vol := vol.cachePutAll block (first :: others)
          let (rest, vol) := readBytesLoop offset size fuel vol (done + chunk)
          (rest.map (first.slice blockOff chunk ++ ·), vol)
        | (_, vol) => (none, vol)
    else (some [], vol)

/-- Bytes from any position, block by block. -/
def readBytes (vol : Volume) (offset size : Nat) : Option (List UInt8) × Volume :=
  readBytesLoop offset size size vol 0

/-- Fill the scratch buffer of a batch, from the cache where possible. -/
def gatherBlocks (vol : Volume) (startBlock : UInt32) : Nat → Option (List Block) × Volume
  | 0 => (some [], vol)
  | count + 1 =>
    match vol.cacheGet startBlock with
    | (some cached, vol) =>
      let (rest, vol) := vol.gatherBlocks (startBlock + 1) count
      (rest.map (cached :: ·), vol)
    | (none, vol) =>
      match vol.device.read (vol.lba startBlock) 1 with
      | some [data] =>
        let (rest, vol) := vol.gatherBlocks (startBlock + 1) count
        (rest.map (data :: ·), vol)
      | _ => (none, vol)

/-- Copy `src` over the scratch blocks, from `offset` in the first block on, and
update the cache block by block. -/
def fillBlocks (vol : Volume) (startBlock : UInt32) :
    List Block → Nat → List UInt8 → List Block × Volume
  | [], _, _ => ([], vol)
  | block :: rest, offset, src =>
    if src.isEmpty then (block :: rest, vol)
    else
      let filled := block.patch offset (src.take (blockSize - offset))
      let vol := vol.cacheUpdate startBlock filled
      let (rest, vol) := vol.fillBlocks (startBlock + 1) rest 0 (src.drop (blockSize - offset))
      (filled :: rest, vol)

/-- Bytes within a few blocks, in one write. -/
def writeBlockBatch (vol : Volume) (startBlock : UInt32) (startOffset : Nat) (src : List UInt8) :
    Bool × Volume :=
  let blockCount := (startOffset + src.length + blockSize - 1) / blockSize
  if src.isEmpty then (false, vol)
  else if blockCount = 0 ∨ blockCount > 16 then (false, vol)
  else
    match vol.gatherBlocks startBlock blockCount with
    | (none, vol) => (false, vol)
    | (some scratch, vol) =>
      let (scratch, vol) := vol.fillBlocks startBlock scratch startOffset src
      match vol.device.write (vol.lba startBlock) scratch with
      | none => (false, vol.markWriteFailed)
      | some device => (true, { vol with device := device, dirty := true })

/-- The loop of `nxfs_write_bytes`, with the bytes that are left. -/
def writeBytesLoop : Nat → Volume → Nat → List UInt8 → Bool × Volume
  | 0, vol, _, _ => (true, vol)
  | fuel + 1, vol, offset, src =>
    if src.isEmpty then (true, vol)
    else
      let absolute := offset % wordLimit
      let block := UInt32.ofNat (absolute / blockSize)
      let blockOff := absolute % blockSize
      let batchLen := min src.length (blockSize * 8 - blockOff)
      match vol.writeBlockBatch block blockOff (src.take batchLen) with
      | (false, vol) => (false, vol)
      | (true, vol) => writeBytesLoop fuel vol (offset + batchLen) (src.drop batchLen)

/-- Bytes to any position, batch by batch. -/
def writeBytes (vol : Volume) (offset : Nat) (src : List UInt8) : Bool × Volume :=
  if src.isEmpty then (false, vol) else writeBytesLoop src.length vol offset src

end Volume

end NexOS.Nxfs
