import NexOS.Lib.GuardedRuns
import NexOS.Nxfs.CacheCoherence

/-! # Runs of block I/O

In a run whose epoch does not wrap, the volume is the array of blocks behind
it. Once the epoch wraps, an entry that was just updated looks like the oldest
one and is replaced before its stale double.
-/

namespace NexOS.Nxfs

/-- The operations on the blocks of a volume. -/
inductive IoOp where
  | readBlock (block : UInt32)
  | readBlocks (startBlock count : UInt32)
  | readBytes (offset size : UInt32)
  | writeBlock (block : UInt32) (data : Block)
  | writeBytes (offset : UInt32) (src : List UInt8)
  | flush (deviceFlushed : Bool)

namespace IoOp

/-- How far an operation can move the counter of the cache. -/
def stamps : IoOp → Nat
  | .readBlock _ => 1
  | .readBlocks _ count => count.toNat
  | .readBytes offset size => 16 * Volume.rounds offset.toNat size.toNat
  | .writeBlock _ _ => 1
  | .writeBytes offset src => 2 * Volume.rounds offset.toNat src.length
  | .flush _ => 0

/-- The bytes of memory that an operation uses. -/
def bufferSize : IoOp → Nat
  | .readBlocks _ count => count.toNat * blockSize
  | .writeBytes _ src => src.length
  | .readBytes _ size => size.toNat
  | .readBlock _ => blockSize
  | .writeBlock _ _ => blockSize
  | .flush _ => 0

end IoOp

/-- What an operation returns. -/
abbrev IoOp.Result : IoOp → Type
  | .readBlock _ => Block
  | .readBlocks _ _ => List Block
  | .readBytes _ _ => List UInt8
  | .writeBlock _ _ => Unit
  | .writeBytes _ _ => Unit
  | .flush _ => Unit

/-- What an operation returns from an array of blocks, and the array after it. -/
def Disk.step (d : Disk) : (op : IoOp) → op.Result × Disk
  | .readBlock block => (d block, d)
  | .readBlocks startBlock count => (d.readBlocks startBlock count.toNat, d)
  | .readBytes offset size => (d.readBytes offset.toNat size.toNat, d)
  | .writeBlock block data => ((), Function.update d block data)
  | .writeBytes offset src => ((), d.writeBytes offset.toNat src)
  | .flush _ => ((), d)

namespace Volume

def written (ok : Bool) : Option Unit := if ok then some () else none

/-- One operation on the volume. -/
def step (vol : Volume) : (op : IoOp) → Option op.Result × Volume
  | .readBlock block => vol.readBlock block
  | .readBlocks startBlock count => vol.readBlocks startBlock count.toNat
  | .readBytes offset size => vol.readBytes offset.toNat size.toNat
  | .writeBlock block data =>
    (written (vol.writeBlock block data).1, (vol.writeBlock block data).2)
  | .writeBytes offset src =>
    (written (vol.writeBytes offset.toNat src).1, (vol.writeBytes offset.toNat src).2)
  | .flush deviceFlushed =>
    (written (vol.flush deviceFlushed).1, (vol.flush deviceFlushed).2)

/-- The volume after a list of operations. -/
def run (vol : Volume) (ops : List IoOp) : Volume :=
  GuardedRuns.run (fun vol op => (vol.step op).2) vol ops

/-- The epoch does not wrap during the operation, whose buffer is below 4 GiB. -/
def Roomy (vol : Volume) (op : IoOp) : Prop :=
  vol.cache.epoch + op.stamps < wordLimit ∧ op.bufferSize < wordLimit

/-- The first batch of `nxfs_write_bytes`. -/
def firstBatch (vol : Volume) (offset : UInt32) (src : List UInt8) : Bool × Volume :=
  vol.writeBlockBatch (UInt32.ofNat (offset.toNat / blockSize)) (offset.toNat % blockSize)
    (src.take (blockSize * 8 - offset.toNat % blockSize))

/-- A write over several batches succeeds, or nothing of it is written. -/
def WritesWhole (vol : Volume) : IoOp → Prop
  | .writeBytes offset src =>
    (vol.writeBytes offset.toNat src).1 = true ∨ (vol.firstBatch offset src).1 = false
  | _ => True

/-- The counter does not wrap, and writes do not end halfway. -/
def Fits (vol : Volume) (op : IoOp) : Prop := vol.Roomy op ∧ vol.WritesWhole op

/-- The blocks after the successful operations of a run: what each block was last written with by
one of them, or held in the beginning. -/
def lastWritten (vol : Volume) (d : Disk) : List IoOp → Disk
  | [] => d
  | op :: rest =>
    (vol.step op).2.lastWritten (if (vol.step op).1.isSome then (d.step op).2 else d) rest

/-- A volume right after `nxfs_mount`. -/
def mounted (device : Device) (partitionLba : UInt32) : Volume where
  device := device
  partitionLba := partitionLba
  cache := { entries := fun _ => ⟨0, 0, fun _ => 0, false⟩, epoch := 0 }
  dirty := false
  writeError := false

lemma mounted_coherent {device : Device} (hsmall : device.blockCount ≤ wordLimit)
    (partitionLba : UInt32) : (mounted device partitionLba).Coherent :=
  ⟨⟨fun _ => Nat.le_refl 0, nofun⟩, hsmall⟩

lemma written_eq_some {ok : Bool} {result : Unit} (hsome : written ok = some result) :
    ok = true := by
  unfold written at hsome
  split at hsome
  next hok => exact hok
  · cases hsome

variable {vol : Volume} {i : Fin cacheBlocks}

lemma Reads.agrees {α : Type} {stamps : Nat} {value : α}
    {result : Option α × Volume} (hreads : vol.Reads stamps value result) :
    vol.Wrote stamps result.2 ∧
      ∀ data, result.1 = some data → (value, vol.contents) = (data, result.2.contents) :=
  ⟨hreads.kept.wrote, fun data hsome =>
    Prod.ext (hreads.value_eq data hsome).symm hreads.kept.contents.symm⟩

lemma Writes.agrees {stamps : Nat} {d : Disk} {result : Bool × Volume}
    (hwrites : vol.Writes stamps d result) :
    vol.Wrote stamps result.2 ∧
      ∀ value, written result.1 = some value → ((), d) = (value, result.2.contents) :=
  ⟨hwrites.wrote, fun _ hsome =>
    Prod.ext rfl (hwrites.contents (written_eq_some hsome)).symm⟩

/-- One operation on a coherent volume: what it returns is what the array of
blocks returns, and the volume stays coherent. -/
lemma Coherent.step (hvol : vol.Coherent) {op : IoOp} (hroomy : vol.Roomy op) :
    vol.Wrote op.stamps (vol.step op).2 ∧ ∀ result, (vol.step op).1 = some result →
        vol.contents.step op = (result, (vol.step op).2.contents) := by
  have hroom := hroomy.1
  cases op with
  | readBlock block => exact (hvol.readBlock hroom block).agrees
  | readBlocks start count => exact (hvol.readBlocks start count.toNat hroom).agrees
  | readBytes off size => exact (hvol.readBytes off.toNat size.toNat hroom).agrees
  | writeBlock block data => exact (hvol.writeBlock hroom block data).agrees
  | writeBytes off src => exact (hvol.writeBytes off.toNat src hroom).agrees
  | flush deviceFlushed => exact (hvol.flush deviceFlushed).agrees

/-- An operation that fails changes no block. -/
lemma Coherent.contents_of_failed (hvol : vol.Coherent) {op : IoOp} (hfits : vol.Fits op)
    (hfail : (vol.step op).1 = none) : (vol.step op).2.contents = vol.contents := by
  obtain ⟨⟨hroom, -⟩, hwhole⟩ := hfits
  cases op with
  | readBlock block => exact (hvol.readBlock hroom block).kept.contents
  | readBlocks start count => exact (hvol.readBlocks start count.toNat hroom).kept.contents
  | readBytes off size => exact (hvol.readBytes off.toNat size.toNat hroom).kept.contents
  | writeBlock block data =>
    simp only [Volume.step, Volume.writeBlock] at hfail ⊢
    split
    · rfl
    next hgood =>
      rw [if_neg hgood] at hfail
      split
      · rfl
      next hwrite => simp [hwrite, written] at hfail
  | writeBytes off src =>
    have hbatch := hwhole.resolve_left fun htrue => by simp [Volume.step, written, htrue] at hfail
    change (vol.writeBytes off.toNat src).2.contents = vol.contents
    unfold Volume.writeBytes
    split
    · rfl
    next hempty =>
      have hne : src.length ≠ 0 := by simpa using hempty
      have hmod : off.toNat % wordLimit = off.toNat := Nat.mod_eq_of_lt off.toNat_lt
      have hrounds := @rounds_batch off.toNat src.length _ hne rfl
      obtain ⟨count, hcount⟩ := Nat.exists_eq_succ_of_ne_zero hne
      rcases hfirst : vol.firstBatch off src with ⟨ok, vol'⟩
      obtain rfl : ok = false := by simpa [hfirst] using hbatch
      unfold firstBatch at hfirst
      rw [List.take_eq_take_min, Nat.min_comm] at hfirst
      rw [hcount, Volume.writeBytesLoop, if_neg hempty, hmod]
      rw [hmod] at hrounds
      dsimp only
      rw [hfirst]
      refine hvol.contents_of_refused ?_ hfirst
      have hroom : vol.cache.epoch + 2 * rounds off.toNat src.length < wordLimit := hroom
      rw [List.length_take, Nat.min_eq_left (Nat.min_le_left ..)]
      omega
  | flush deviceFlushed =>
    simp only [Volume.step, Volume.flush]
    split
    · rfl
    split
    · rfl
    split <;> rfl

lemma Coherent.run (hvol : vol.Coherent) {ops : List IoOp}
    (hfits : GuardedRuns.RunFits (fun vol op => (vol.step op).2) Fits vol ops) :
    (vol.run ops).Coherent ∧ (vol.run ops).contents = vol.lastWritten vol.contents ops := by
  induction ops generalizing vol with
  | nil => exact ⟨hvol, rfl⟩
  | cons op rest ih =>
    obtain ⟨hwrote, hres⟩ := hvol.step hfits.1.1
    obtain ⟨hend, hcont⟩ := ih hwrote.coherent hfits.2
    refine ⟨hend, hcont.trans ?_⟩
    rw [lastWritten]
    congr 1
    rcases hresult : (vol.step op).1 with _ | result
    · exact hvol.contents_of_failed hfits.1 hresult
    · simp [hres result hresult]

/-- In a run whose epoch does not wrap and in which no write fails half-way, every successful
operation returns what it would return from the blocks as the successful operations before it left
them, and every entry that a lookup finds equals the device block. -/
theorem run_coherent (device : Device) (partitionLba : UInt32) (ops : List IoOp)
    (hsmall : device.blockCount ≤ wordLimit)
    (hfits : GuardedRuns.RunFits (fun vol op => (vol.step op).2) Fits (mounted device partitionLba)
      ops)
    (done rest : List IoOp) (op : IoOp) (hsplit : ops = done ++ op :: rest) :
    let start := mounted device partitionLba
    let vol := start.run done
    (∀ result, (vol.step op).1 = some result →
      (start.lastWritten start.contents done).step op = (result, (vol.step op).2.contents)) ∧
    ∀ block i, (vol.step op).2.cache.lookup block = some i →
      ((vol.step op).2.cache.entries i).data = (vol.step op).2.contents block := by
  subst hsplit
  obtain ⟨hdone, hop, -⟩ := GuardedRuns.runFits_append.mp hfits
  obtain ⟨hvol, hcont⟩ := (mounted_coherent hsmall partitionLba).run hdone
  obtain ⟨hwrote, hres⟩ := hvol.step hop.1
  refine ⟨fun result hsome => hcont ▸ hres result hsome, fun block i hfound => ?_⟩
  exact hwrote.coherent.cache.data_eq hfound

/-- A device of eight blocks. -/
def smallDevice : Device := ⟨fun _ _ => 0, 8⟩

/-- A block that was written and is read back, after a write that failed. -/
theorem run_coherent_write_read :
    let start := mounted smallDevice 0
    let done : List IoOp :=
      [.writeBlock 5 fun _ => 1, .writeBytes 3000 [2, 3], .writeBlock 9 fun _ => 4]
    let vol := start.run done
    (∀ data, (vol.step (.readBlock 5)).1 = some data →
      (start.lastWritten start.contents done).step (.readBlock 5) =
        (data, (vol.step (.readBlock 5)).2.contents)) ∧
    ∀ block i, (vol.step (.readBlock 5)).2.cache.lookup block = some i →
      ((vol.step (.readBlock 5)).2.cache.entries i).data =
        (vol.step (.readBlock 5)).2.contents block :=
  run_coherent smallDevice 0 [.writeBlock 5 fun _ => 1, .writeBytes 3000 [2, 3],
      .writeBlock 9 fun _ => 4, .readBlock 5] (by decide)
    ⟨⟨⟨by decide +kernel, by decide⟩, trivial⟩,
      ⟨⟨by decide +kernel, by decide⟩, .inl (by decide +kernel)⟩,
      ⟨⟨by decide +kernel, by decide⟩, trivial⟩, ⟨⟨by decide +kernel, by decide⟩, trivial⟩, trivial⟩
    [.writeBlock 5 fun _ => 1, .writeBytes 3000 [2, 3], .writeBlock 9 fun _ => 4] []
    (.readBlock 5) rfl

/-! ## When the epoch wraps -/

/-- A place of the cache after many hits. -/
def spun (vol : Volume) (i : Fin cacheBlocks) (count : Nat) : Volume :=
  { vol with
    cache :=
      { entries := Function.update vol.cache.entries i
          { vol.cache.entries i with stamp := vol.cache.epoch + count }
        epoch := vol.cache.epoch + count } }

lemma lookup_spun (vol : Volume) (i : Fin cacheBlocks) (count : Nat) (block : UInt32) :
    (vol.spun i count).cache.lookup block = vol.cache.lookup block := by
  have hentry : ∀ j, ((vol.spun i count).cache.entries j).valid = (vol.cache.entries j).valid ∧
      ((vol.spun i count).cache.entries j).key = (vol.cache.entries j).key := by
    intro j
    by_cases hj : j = i
    · subst hj
      simp [spun]
    · simp [spun, Function.update_of_ne hj]
  unfold StampedCache.Cache.lookup
  simp only [hentry]

lemma readBlock_of_lookup {block : UInt32}
    (hfound : vol.cache.lookup block = some i) (hroom : vol.cache.epoch + 1 < wordLimit) :
    (vol.readBlock block).2 = vol.spun i 1 := by
  have hepoch : (vol.cache.epoch + 1) % wordLimit = vol.cache.epoch + 1 := Nat.mod_eq_of_lt hroom
  simp [readBlock, cacheGet, StampedCache.Cache.get, hfound, StampedCache.Cache.stampWith, hepoch,
    spun]

lemma spun_spun (vol : Volume) (i : Fin cacheBlocks) (first second : Nat) :
    (vol.spun i first).spun i second = vol.spun i (first + second) := by
  simp [spun, Nat.add_assoc]

/-- Reading a cached block only moves the epoch and the stamp of its entry. -/
lemma run_replicate_readBlock {block : UInt32}
    (hfound : vol.cache.lookup block = some i) (count : Nat)
    (hroom : vol.cache.epoch + (count + 1) < wordLimit) :
    vol.run (List.replicate (count + 1) (.readBlock block)) = vol.spun i (count + 1) := by
  induction count generalizing vol with
  | zero => exact readBlock_of_lookup hfound (by omega)
  | succ count ih =>
    have hfirst : (vol.step (.readBlock block)).2 = vol.spun i 1 :=
      readBlock_of_lookup hfound (by omega)
    have hspun : (vol.spun i 1).cache.epoch = vol.cache.epoch + 1 := rfl
    rw [List.replicate_succ, run, GuardedRuns.run, hfirst, ← run,
      ih ((lookup_spun ..).trans hfound) (by omega), spun_spun, Nat.add_comm 1]

def blankDevice : Device := ⟨fun _ _ => 0, 1024⟩

/-- Block 5 is cached twice, in the first two entries, and other blocks fill
the rest of the cache. -/
def fillCache : List IoOp :=
  .readBytes 2560 1 :: (List.range 62).map fun i => .readBlock (UInt32.ofNat (100 + i))

/-- A volume whose cache is full. -/
def filled : Volume := (mounted blankDevice 0).run fillCache

/-- Reading block 100 moves the epoch up to its last value. -/
def spinReads : List IoOp := List.replicate (2 ^ 32 - 65) (.readBlock 100)

/-- The write stamps the first entry of block 5 with zero, and the next miss
replaces it. -/
def writeAndEvict : List IoOp := [.writeBlock 5 fun _ => 1, .readBlock 200]

lemma filled_spun : filled.run spinReads = filled.spun 2 (2 ^ 32 - 65) := by
  have hfilled : filled.cache.epoch = 64 ∧ filled.cache.lookup 100 = some 2 := by decide +kernel
  have hcount : 2 ^ 32 - 65 = 2 ^ 32 - 66 + 1 := by decide
  unfold spinReads
  rw [hcount]
  apply run_replicate_readBlock hfilled.2
  rw [hfilled.1]
  decide

/-- After the epoch has wrapped, reading block 5 succeeds and returns zeros,
although its last successful write put ones on the device. -/
theorem wrapped_epoch_reads_stale :
    let vol := (mounted blankDevice 0).run (fillCache ++ spinReads ++ writeAndEvict)
    (vol.step (.readBlock 5)).1.map (Block.byte · 0) = some 0 ∧ (vol.contents 5).byte 0 = 1 := by
  have hrun : (mounted blankDevice 0).run (fillCache ++ spinReads ++ writeAndEvict) =
      (filled.spun 2 (2 ^ 32 - 65)).run writeAndEvict := by
    rw [run, GuardedRuns.run_append, GuardedRuns.run_append, ← run, ← run]
    exact congrArg (fun vol : Volume => vol.run writeAndEvict) filled_spun
  intro vol
  rw [show vol = (filled.spun 2 (2 ^ 32 - 65)).run writeAndEvict from hrun]
  decide +kernel

end Volume

end NexOS.Nxfs
