import NexOS.Nxfs.Disk

/-! # Coherence of the block cache

As long as the 32-bit epoch of the cache does not wrap, the block I/O of a
volume is that of the array of blocks behind it: reads return what the device
holds, writes reach the device, and every entry that a lookup can find equals
the device block.
-/

namespace NexOS.Nxfs

open Disk List Nat

namespace Volume

/-- What the device holds of the volume. -/
def contents (vol : Volume) : Disk := fun block => vol.device.blocks (vol.lba block)

/-- The cache agrees with the device, whose addresses fit in 32 bits. -/
structure Coherent (vol : Volume) : Prop where
  cache : vol.cache.Coherent vol.contents
  small : vol.device.blockCount ≤ wordLimit

/-- A step that only reads, and stamps at most `stamps` entries. -/
structure Kept (vol : Volume) (stamps : Nat) (vol' : Volume) : Prop where
  coherent : vol'.Coherent
  device : vol'.device = vol.device
  partitionLba : vol'.partitionLba = vol.partitionLba
  epoch : vol'.cache.epoch ≤ vol.cache.epoch + stamps

variable {vol vol' : Volume} {stamps first second : Nat} {block : UInt32} {data : List Block}

lemma Coherent.kept (hvol : vol.Coherent) (stamps : Nat) : vol.Kept stamps vol :=
  ⟨hvol, rfl, rfl, le_add_right _ _⟩

lemma Kept.trans {vol'' : Volume} (hfirst : vol.Kept first vol')
    (hsnd : vol'.Kept second vol'') : vol.Kept (first + second) vol'' := by
  refine ⟨hsnd.coherent, hsnd.device.trans hfirst.device,
    hsnd.partitionLba.trans hfirst.partitionLba, ?_⟩
  have hepoch := hfirst.epoch
  have hepoch' := hsnd.epoch
  omega

lemma Kept.mono {stamps' : Nat} (hkept : vol.Kept stamps vol') (hle : stamps ≤ stamps') :
    vol.Kept stamps' vol' :=
  ⟨hkept.coherent, hkept.device, hkept.partitionLba, hkept.epoch.trans (Nat.add_le_add_left hle _)⟩

lemma Kept.contents (hkept : vol.Kept stamps vol') : vol'.contents = vol.contents := by
  unfold Volume.contents lba
  rw [hkept.device, hkept.partitionLba]

/-- A call that only reads and stamps at most `stamps` entries. If it succeeds, it
returns `value`. -/
structure Reads {α : Type} (vol : Volume) (stamps : Nat) (value : α)
    (result : Option α × Volume) : Prop where
  kept : vol.Kept stamps result.2
  value_eq : ∀ data, result.1 = some data → data = value

section Reads

variable {α β : Type} {vol vol' : Volume} {stamps : Nat}

lemma Kept.refuses (hkept : vol.Kept stamps vol') (value : α) :
    vol.Reads stamps value (none, vol') :=
  ⟨hkept, nofun⟩

lemma Kept.returns (hkept : vol.Kept stamps vol') {value data : α} (hdata : data = value) :
    vol.Reads stamps value (some data, vol') :=
  ⟨hkept, fun _ hsome => (Option.some.inj hsome).symm.trans hdata⟩

/-- The rest of a call, whose value goes into the value of the whole call. -/
lemma Kept.continues (hkept : vol.Kept first vol') {rest : α} {result : Option α × Volume}
    (hrest : vol'.Reads second rest result) {f : α → β} {value : β} (hvalue : f rest = value)
    (hle : first + second ≤ stamps) : vol.Reads stamps value (result.1.map f, result.2) := by
  refine ⟨(hkept.trans hrest.kept).mono hle, ?_⟩
  intro data hsome
  obtain ⟨found, hfound, rfl⟩ := Option.map_eq_some_iff.mp hsome
  rw [hrest.value_eq found hfound, hvalue]

end Reads

lemma epoch_stampWith_le (cache : BlockCache) (i : Fin cacheBlocks)
    (entry : StampedCache.Entry UInt32 Block) :
    (cache.stampWith wordLimit i entry).epoch ≤ cache.epoch + 1 := mod_le ..

variable (hvol : vol.Coherent)

include hvol

variable (hroom : vol.cache.epoch + 1 < wordLimit)

include hroom

lemma Coherent.cacheGet
    (block : UInt32) : vol.Reads 1 (vol.contents block) (vol.cacheGet block) := by
  obtain ⟨hcache, hdata⟩ := hvol.cache.get hroom block
  refine ⟨⟨⟨hcache, hvol.small⟩, rfl, rfl, ?_⟩, hdata⟩
  change (vol.cache.get wordLimit block).2.epoch ≤ _
  unfold StampedCache.Cache.get
  split
  · exact le_succ _
  · exact epoch_stampWith_le ..

lemma Coherent.cachePut
    {data : Block} (hdata : data = vol.contents block) : vol.Kept 1 (vol.cachePut block data) :=
  ⟨⟨hvol.cache.put hroom hdata, hvol.small⟩, rfl, rfl, epoch_stampWith_le ..⟩

omit hroom

lemma Coherent.cachePutAll (hroom : vol.cache.epoch + data.length < wordLimit) {start : UInt32}
    (hdata : data = vol.contents.readBlocks start data.length) :
    vol.Kept data.length (vol.cachePutAll start data) := by
  induction data generalizing vol start with
  | nil => exact hvol.kept 0
  | cons first rest ih =>
    rw [length_cons] at hroom
    rw [length_cons, Disk.readBlocks, List.cons.injEq] at hdata
    have hput := hvol.cachePut (by omega) hdata.1
    have hepoch := hput.epoch
    have hrest := ih hput.coherent (by omega) (by rw [hput.contents]; exact hdata.2)
    rw [length_cons, add_comm]
    exact hput.trans hrest

omit hvol

/-! ## Reading -/

lemma lba_add (vol : Volume) (block : UInt32) (i : Nat) (hi : vol.lba block + i < wordLimit) :
    vol.lba (block + UInt32.ofNat i) = vol.lba block + i := by
  unfold lba at hi ⊢
  have hlt : i < 2 ^ 32 := lt_of_le_of_lt (le_add_left _ _) hi
  rw [← UInt32.add_assoc, UInt32.toNat_add, UInt32.toNat_ofNat_of_lt' hlt]
  exact mod_eq_of_lt hi

/-- A request that the device accepts reads a run of the volume. -/
lemma Coherent.device_read (hvol : vol.Coherent) {count : Nat}
    (hread : vol.device.read (vol.lba block) count = some data) :
    data = vol.contents.readBlocks block count := by
  unfold Device.read at hread
  split at hread
  next hend =>
    cases hread
    have hsmall := hvol.small
    apply ext_getElem?
    intro i
    by_cases hi : i < count
    · rw [getElem?_readBlocks _ _ _ _ hi]
      simp only [getElem?_map, getElem?_range hi, Option.map_some, contents]
      rw [vol.lba_add block i (by omega)]
    · rw [getElem?_eq_none, getElem?_eq_none]
      · rw [length_readBlocks]
        omega
      · simpa using hi
  · cases hread

/-- A lookup that misses leaves the volume as it is. -/
lemma cacheGet_miss (hget : vol.cacheGet block = (none, vol')) : vol = vol' := by
  unfold cacheGet StampedCache.Cache.get at hget
  cases hfound : vol.cache.lookup block with
  | none =>
    simp only [hfound, Prod.mk.injEq] at hget
    exact hget.2
  | some i => simp [hfound] at hget

include hvol

include hroom

/-- A lookup that hits returns the device block. -/
lemma Coherent.cacheGet_hit {cached : Block} (hget : vol.cacheGet block = (some cached, vol')) :
    vol.Kept 1 vol' ∧ cached = vol.contents block := by
  obtain ⟨hkept, hdata⟩ := hvol.cacheGet hroom block
  rw [hget] at hkept hdata
  exact ⟨hkept, hdata cached rfl⟩

lemma Coherent.readBlock
    (block : UInt32) : vol.Reads 1 (vol.contents block) (vol.readBlock block) := by
  unfold Volume.readBlock
  split
  next cached vol' hget =>
    obtain ⟨hkept, hdata⟩ := hvol.cacheGet_hit hroom hget
    exact hkept.returns hdata
  next vol' hget =>
    obtain rfl := cacheGet_miss hget
    split
    next data hread =>
      have hrun := hvol.device_read hread
      simp only [Disk.readBlocks, List.cons.injEq, and_true] at hrun
      exact (hvol.cachePut hroom hrun).returns hrun
    · exact (hvol.kept 1).refuses _

omit hroom

lemma Coherent.cachedRun (start : UInt32) (count : Nat)
    (hroom : vol.cache.epoch + count < wordLimit) :
    (vol.cachedRun start count).1.length ≤ count ∧
      vol.Kept (vol.cachedRun start count).1.length (vol.cachedRun start count).2 ∧
      (vol.cachedRun start count).1 =
        vol.contents.readBlocks start (vol.cachedRun start count).1.length := by
  induction count generalizing vol start with
  | zero => exact ⟨le_refl 0, hvol.kept 0, rfl⟩
  | succ count ih =>
    unfold Volume.cachedRun
    split
    next vol' hget =>
      obtain rfl := cacheGet_miss hget
      exact ⟨zero_le _, hvol.kept 0, rfl⟩
    next entry vol' hget =>
      obtain ⟨hkept, hdata⟩ := hvol.cacheGet_hit (by omega) hget
      have hepoch := hkept.epoch
      obtain ⟨hle, hrest, hrun⟩ := ih hkept.coherent (start + 1) (by omega)
      rw [List.length_cons, Disk.readBlocks, ← hdata, ← hkept.contents, ← hrun]
      refine ⟨succ_le_succ hle, ?_, rfl⟩
      rw [add_comm]
      exact hkept.trans hrest

lemma Coherent.readBlocks (start : UInt32) (count : Nat)
    (hroom : vol.cache.epoch + count < wordLimit) :
    vol.Reads count (vol.contents.readBlocks start count) (vol.readBlocks start count) := by
  unfold Volume.readBlocks
  split
  · exact (hvol.kept count).refuses _
  obtain ⟨hle, hkept, hhits⟩ := hvol.cachedRun start count hroom
  generalize vol.cachedRun start count = run at hle hkept hhits
  obtain ⟨hits, vol'⟩ := run
  dsimp only at hle hkept hhits ⊢
  have hepoch := hkept.epoch
  split
  next hall => exact (hkept.mono hle).returns (by rw [hhits, hall])
  split
  · exact (hkept.mono hle).refuses _
  next data hread =>
    have hdata := hkept.coherent.device_read hread
    have hlen : data.length = count - hits.length := by
      rw [hdata, length_readBlocks]
    have hroom' : vol'.cache.epoch + data.length < wordLimit := by omega
    have hput := hkept.coherent.cachePutAll hroom' (by rw [hlen]; exact hdata)
    refine ((hkept.trans hput).mono (by omega)).returns ?_
    rw [hkept.contents] at hdata
    have hsplit := vol.contents.readBlocks_add start hits.length (count - hits.length)
    rw [Nat.add_sub_cancel' hle] at hsplit
    rw [hsplit, ← hhits, ← hdata]

omit hvol

/-- The bytes of one block that a byte range covers. -/
lemma slice_eq_readBytes (d : Disk) (addr length : Nat)
    (hlen : addr % wordLimit % blockSize + length ≤ blockSize) :
    (d (UInt32.ofNat (addr % wordLimit / blockSize))).slice
      (addr % wordLimit % blockSize) length = d.readBytes addr length := by
  apply map_congr_left
  intro i hi
  rw [mem_range] at hi
  -- The block size divides the address space, so the range wraps nowhere inside a block.
  have hsum : (addr + i) % wordLimit = addr % wordLimit + i := by
    simp only [wordLimit, blockSize] at hlen ⊢
    omega
  have hblock : (addr % wordLimit + i) / blockSize = addr % wordLimit / blockSize := by
    simp only [blockSize] at hlen ⊢
    omega
  have hbyte : (addr % wordLimit + i) % blockSize = addr % wordLimit % blockSize + i := by
    simp only [blockSize] at hlen ⊢
    omega
  rw [byteAt, hsum, hblock, hbyte]

lemma readBytes_append (d : Disk) (addr first second : Nat) :
    d.readBytes addr first ++ d.readBytes (addr + first) second =
      d.readBytes addr (first + second) := by
  unfold Disk.readBytes
  rw [range_add]
  simp [add_assoc]

/-- The number of blocks that a range of bytes touches. -/
def rounds (address length : Nat) : Nat :=
  if length = 0 then 0 else blockSpan (address % wordLimit % blockSize) length

lemma rounds_chunk {addr length chunk : Nat} (hlen : length ≠ 0)
    (hchunk : chunk = min (blockSize - addr % wordLimit % blockSize) length) :
    rounds (addr + chunk) (length - chunk) + 1 ≤ rounds addr length := by
  unfold rounds blockSpan
  simp only [wordLimit, blockSize] at hchunk ⊢
  split <;> omega

lemma Coherent.readBytesLoop (hvol : vol.Coherent) (off size fuel done : Nat)
    (hfuel : size - done ≤ fuel)
    (hroom : vol.cache.epoch + 16 * rounds (off + done) (size - done) < wordLimit) :
    vol.Reads (16 * rounds (off + done) (size - done))
      (vol.contents.readBytes (off + done) (size - done))
      (readBytesLoop off size fuel vol done) := by
  induction fuel generalizing vol done with
  | zero =>
    rw [Nat.le_zero.mp hfuel]
    exact (hvol.kept _).returns rfl
  | succ fuel ih =>
    unfold Volume.readBytesLoop
    split
    next hlt =>
      dsimp only
      generalize hchunk : min (blockSize - (off + done) % wordLimit % blockSize)
        (size - done) = chunk
      have hrounds := rounds_chunk (by omega) hchunk.symm
      rw [Nat.add_assoc, Nat.sub_sub] at hrounds
      have hins := Nat.mod_lt ((off + done) % wordLimit) (show 0 < blockSize by decide)
      have hbytes := readBytes_append vol.contents (off + done) chunk (size - (done + chunk))
      rw [show chunk + (size - (done + chunk)) = size - done by omega, add_assoc] at hbytes
      -- The chunk comes from a block that takes at most 16 stamps to get.
      have hround : ∀ {stamps : Nat} {vol' : Volume} {data : Block}, vol.Kept stamps vol' →
          stamps ≤ 16 →
          data = vol.contents (UInt32.ofNat ((off + done) % wordLimit / blockSize)) →
          vol.Reads (16 * rounds (off + done) (size - done))
            (vol.contents.readBytes (off + done) (size - done))
            ((Volume.readBytesLoop off size fuel vol' (done + chunk)).1.map
              (data.slice ((off + done) % wordLimit % blockSize) chunk ++ ·),
            (Volume.readBytesLoop off size fuel vol' (done + chunk)).2) := by
        intro stamps vol' data hkept hstamps hdata
        have hepoch := hkept.epoch
        refine hkept.continues
          (ih hkept.coherent (done + chunk) (by omega) (by omega)) ?_ (by omega)
        rw [hkept.contents, hdata, slice_eq_readBytes _ _ _ (by omega)]
        exact hbytes
      split
      next cached vol' hget =>
        obtain ⟨hkept, hdata⟩ := hvol.cacheGet_hit (by omega) hget
        exact hround hkept (by decide) hdata
      next vol' hget =>
        obtain rfl := cacheGet_miss hget
        generalize hmax : min 8 ((size - done + (off + done) % wordLimit % blockSize +
          blockSize - 1) % wordLimit / blockSize) = maxBlocks
        obtain ⟨hkept, hdata⟩ := hvol.readBlocks
          (UInt32.ofNat ((off + done) % wordLimit / blockSize)) maxBlocks (by omega)
        split
        next first others vol' hread =>
          rw [hread] at hkept hdata
          have hrun := hdata (first :: others) rfl
          have hcount : (first :: others).length = maxBlocks := by
            rw [hrun, length_readBlocks]
          have hepoch : vol'.cache.epoch ≤ _ := hkept.epoch
          have hroom' : vol'.cache.epoch + (first :: others).length < wordLimit := by omega
          have hput := hkept.coherent.cachePutAll hroom'
            (by rw [hcount, hkept.contents]; exact hrun)
          refine hround (hkept.trans hput) (by omega) ?_
          rw [← hcount] at hrun
          exact (List.cons.inj hrun).1
        next vol' _ hread =>
          rw [hread] at hkept
          exact (hkept.mono (by omega)).refuses _
    next hge =>
      rw [show size - done = 0 by omega]
      exact (hvol.kept _).returns rfl

lemma Coherent.readBytes (hvol : vol.Coherent) (off size : Nat)
    (hroom : vol.cache.epoch + 16 * rounds off size < wordLimit) :
    vol.Reads (16 * rounds off size) (vol.contents.readBytes off size)
      (vol.readBytes off size) :=
  hvol.readBytesLoop off size size 0 le_rfl hroom

/-! ## Writing -/

lemma device_write_eq_some {dev device : Device} {lba : Nat}
    (hwrite : dev.write lba data = some device) :
    lba + data.length ≤ dev.blockCount ∧ device.blockCount = dev.blockCount ∧ ∀ i, device.blocks i =
        if lba ≤ i then (data[i - lba]?).getD (dev.blocks i) else dev.blocks i := by
  unfold Device.write at hwrite
  split at hwrite
  next hend =>
    cases hwrite
    exact ⟨hend, rfl, fun _ => rfl⟩
  · cases hwrite

/-- A request that the device accepts writes a run of the volume. -/
lemma contents_write {device : Device} (hsmall : vol.device.blockCount ≤ wordLimit)
    (hwrite : vol.device.write (vol.lba block) data = some device) (other : UInt32) :
    device.blocks (vol.lba other) = vol.contents.writeBlocks block data other := by
  obtain ⟨hend, -, hblocks⟩ := device_write_eq_some hwrite
  -- The distance of two blocks is that of their addresses, unless it wraps.
  have hdist : (other - block).toNat = (2 ^ 32 - vol.lba block + vol.lba other) % 2 ^ 32 := by
    have hblock := block.toNat_lt
    unfold lba
    rw [UInt32.toNat_sub, UInt32.toNat_add, UInt32.toNat_add]
    omega
  have hother : vol.lba other < 2 ^ 32 := UInt32.toNat_lt _
  rw [writeBlocks_apply _ _ _ (by omega), hblocks]
  simp only [wordLimit] at hsmall
  by_cases hle : vol.lba block ≤ vol.lba other
  · have hindex : (other - block).toNat = vol.lba other - vol.lba block := by omega
    rw [if_pos hle, hindex]
    rfl
  · have hnone : data.length ≤ (other - block).toNat := by omega
    rw [if_neg hle, getElem?_eq_none hnone]
    rfl

/-- A step that may write, and stamps at most `stamps` entries. -/
structure Wrote (vol : Volume) (stamps : Nat) (vol' : Volume) : Prop where
  coherent : vol'.Coherent
  partitionLba : vol'.partitionLba = vol.partitionLba
  epoch : vol'.cache.epoch ≤ vol.cache.epoch + stamps

lemma Kept.wrote (hkept : vol.Kept stamps vol') : vol.Wrote stamps vol' :=
  ⟨hkept.coherent, hkept.partitionLba, hkept.epoch⟩

lemma Wrote.trans {vol'' : Volume} (hfirst : vol.Wrote first vol')
    (hsnd : vol'.Wrote second vol'') : vol.Wrote (first + second) vol'' := by
  refine ⟨hsnd.coherent, hsnd.partitionLba.trans hfirst.partitionLba, ?_⟩
  have hepoch := hfirst.epoch
  have hepoch' := hsnd.epoch
  omega

lemma Wrote.mono {stamps' : Nat} (hwrote : vol.Wrote stamps vol') (hle : stamps ≤ stamps') :
    vol.Wrote stamps' vol' :=
  ⟨hwrote.coherent, hwrote.partitionLba, hwrote.epoch.trans (Nat.add_le_add_left hle _)⟩

lemma wrote_markWriteFailed (hsmall : vol.device.blockCount ≤ wordLimit) (stamps : Nat) :
    vol.Wrote stamps vol.markWriteFailed :=
  ⟨⟨StampedCache.Cache.coherent_clear _ _, hsmall⟩, rfl, zero_le _⟩

/-- A call that may write and stamps at most `stamps` entries. If it succeeds, the
volume holds `d`. -/
structure Writes (vol : Volume) (stamps : Nat) (d : Disk) (result : Bool × Volume) : Prop where
  wrote : vol.Wrote stamps result.2
  contents : result.1 = true → result.2.contents = d

lemma Wrote.refuses (hwrote : vol.Wrote stamps vol') (d : Disk) :
    vol.Writes stamps d (false, vol') :=
  ⟨hwrote, nofun⟩

lemma epoch_update_le (cache : BlockCache) (block : UInt32) (data : Block) :
    (cache.update wordLimit block data).epoch ≤ cache.epoch + 1 := by
  unfold StampedCache.Cache.update
  split
  · exact le_succ _
  · exact epoch_stampWith_le ..

lemma Coherent.writeBlock (hvol : vol.Coherent) (hroom : vol.cache.epoch + 1 < wordLimit)
    (block : UInt32) (data : Block) :
    vol.Writes 1 (Function.update vol.contents block data) (vol.writeBlock block data) := by
  unfold Volume.writeBlock
  split
  · exact (hvol.kept 1).wrote.refuses _
  split
  · exact (wrote_markWriteFailed hvol.small 1).refuses _
  next device hwrite =>
    have hcont : ({ vol with device := device, dirty := true }.cacheUpdate block data).contents =
        Function.update vol.contents block data := by
      funext other
      exact contents_write hvol.small hwrite other
    refine ⟨⟨⟨?_, ?_⟩, rfl, epoch_update_le ..⟩, fun _ => hcont⟩
    · rw [hcont]
      exact hvol.cache.update hroom block data
    · obtain ⟨-, hcount, -⟩ := device_write_eq_some hwrite
      exact hcount.trans_le hvol.small

lemma Coherent.gatherBlocks (hvol : vol.Coherent) (start : UInt32) (count : Nat)
    (hroom : vol.cache.epoch + count < wordLimit) :
    vol.Reads count (vol.contents.readBlocks start count) (vol.gatherBlocks start count) := by
  induction count generalizing vol start with
  | zero => exact (hvol.kept 0).returns rfl
  | succ count ih =>
    unfold Volume.gatherBlocks
    split
    next cached vol' hget =>
      obtain ⟨hkept, hdata⟩ := hvol.cacheGet_hit (by omega) hget
      have hepoch := hkept.epoch
      refine hkept.continues (ih hkept.coherent (start + 1) (by omega)) ?_ (by omega)
      rw [hkept.contents, hdata, Disk.readBlocks]
    next vol' hget =>
      obtain rfl := cacheGet_miss hget
      split
      next data hread =>
        have hrun := hvol.device_read hread
        simp only [Disk.readBlocks, List.cons.injEq, and_true] at hrun
        refine (hvol.kept 0).continues (ih hvol (start + 1) (by omega)) ?_ (by omega)
        rw [hrun, Disk.readBlocks]
      · exact (hvol.kept _).refuses _

/-- The cache is updated ahead of the device: it agrees with the array that the
batch is about to write. -/
lemma fillBlocks_spec (vol : Volume) {d : Disk} (hcache : vol.cache.Coherent d)
    (start : UInt32) (blocks : List Block) (off : Nat) (src : List UInt8)
    (hblocks : blocks = d.readBlocks start blocks.length)
    (hroom : vol.cache.epoch + blocks.length < wordLimit) :
    ∃ cache, vol.fillBlocks start blocks off src =
        (Disk.patchBlocks blocks off src, { vol with cache := cache }) ∧
      cache.Coherent (d.writeBlocks start (Disk.patchBlocks blocks off src)) ∧
      cache.epoch ≤ vol.cache.epoch + blocks.length := by
  induction blocks generalizing vol d start off src with
  | nil => exact ⟨vol.cache, rfl, hcache, le_rfl⟩
  | cons block rest ih =>
    rw [List.length_cons] at hroom hblocks
    unfold Volume.fillBlocks Disk.patchBlocks
    split
    · refine ⟨vol.cache, rfl, ?_, le_add_right _ _⟩
      rw [hblocks, Disk.writeBlocks_readBlocks]
      exact hcache
    rw [Disk.readBlocks, List.cons.injEq] at hblocks
    dsimp only
    generalize block.patch off (src.take (blockSize - off)) = filled
    have hroom' : vol.cache.epoch + 1 < wordLimit := by omega
    have hupdate := hcache.update hroom' start filled
    have hepoch := epoch_update_le vol.cache start filled
    obtain ⟨cache, hfill, hcoh, hle⟩ := ih (vol.cacheUpdate start filled) hupdate
      (start + 1) 0 (src.drop (blockSize - off))
      (by rw [readBlocks_update d start filled _ (by omega)]; exact hblocks.2)
      (show (vol.cache.update wordLimit start filled).epoch + rest.length < wordLimit by
        omega)
    refine ⟨cache, ?_, hcoh, ?_⟩
    · rw [hfill]
      rfl
    · have hle' : cache.epoch ≤ (vol.cache.update wordLimit start filled).epoch + rest.length := hle
      rw [length_cons]
      omega

lemma Coherent.writeBlockBatch (hvol : vol.Coherent) (start : UInt32) (startOffset : Nat)
    (src : List UInt8)
    (hroom : vol.cache.epoch + 2 * blockSpan startOffset src.length < wordLimit) :
    vol.Writes (2 * blockSpan startOffset src.length)
      (vol.contents.writeBatch start startOffset src)
      (vol.writeBlockBatch start startOffset src) := by
  unfold Volume.writeBlockBatch
  dsimp only
  rw [show (startOffset + src.length + blockSize - 1) / blockSize =
    blockSpan startOffset src.length from rfl]
  generalize hspan : blockSpan startOffset src.length = span at hroom ⊢
  split
  · exact (hvol.kept _).wrote.refuses _
  split
  · exact (hvol.kept _).wrote.refuses _
  obtain ⟨hkept, hdata⟩ := hvol.gatherBlocks start span (by omega)
  split
  next vol₁ hgather =>
    rw [hgather] at hkept
    exact (hkept.mono (by omega)).wrote.refuses _
  next scratch vol₁ hgather =>
    rw [hgather] at hkept hdata
    dsimp only at hkept
    have hscratch := hdata scratch rfl
    have hlen : scratch.length = span := by rw [hscratch, length_readBlocks]
    have hepoch := hkept.epoch
    obtain ⟨cache, hfill, hcoh, hle⟩ := vol₁.fillBlocks_spec hkept.coherent.cache
      start scratch startOffset src (by rw [hlen, hkept.contents]; exact hscratch)
      (by omega)
    rw [hfill]
    split
    · exact ⟨⟨⟨StampedCache.Cache.coherent_clear _ _, hkept.coherent.small⟩,
        hkept.partitionLba, zero_le _⟩, nofun⟩
    next device hwrite =>
      have hcont : ({ vol₁ with device := device, dirty := true, cache := cache } :
          Volume).contents = vol.contents.writeBatch start startOffset src := by
        funext other
        refine (contents_write hkept.coherent.small hwrite other).trans ?_
        rw [writeBatch, hspan, ← hscratch, hkept.contents]
      refine ⟨⟨⟨?_, ?_⟩, hkept.partitionLba, ?_⟩, fun _ => hcont⟩
      · rw [hcont, writeBatch, hspan, ← hscratch, ← hkept.contents]
        exact hcoh
      · obtain ⟨-, hcount, -⟩ := device_write_eq_some hwrite
        exact hcount.trans_le hkept.coherent.small
      · dsimp only
        omega

/-- A batch that fails is not written. -/
lemma Coherent.contents_of_refused (hvol : vol.Coherent) {start : UInt32} {startOffset : Nat}
    {src : List UInt8}
    (hroom : vol.cache.epoch + 2 * blockSpan startOffset src.length < wordLimit)
    (hfail : vol.writeBlockBatch start startOffset src = (false, vol')) :
    vol'.contents = vol.contents := by
  unfold Volume.writeBlockBatch at hfail
  dsimp only at hfail
  rw [show (startOffset + src.length + blockSize - 1) / blockSize =
    blockSpan startOffset src.length from rfl] at hfail
  split at hfail
  · cases hfail
    rfl
  split at hfail
  · cases hfail
    rfl
  obtain ⟨hkept, hdata⟩ := hvol.gatherBlocks start (blockSpan startOffset src.length) (by omega)
  split at hfail
  next vol₁ hgather =>
    cases hfail
    rw [hgather] at hkept
    exact hkept.contents
  next scratch vol₁ hgather =>
    rw [hgather] at hkept hdata
    dsimp only at hkept
    have hscratch := hdata scratch rfl
    have hlen : scratch.length = blockSpan startOffset src.length := by
      rw [hscratch, length_readBlocks]
    have hepoch := hkept.epoch
    obtain ⟨cache, hfill, -⟩ := vol₁.fillBlocks_spec hkept.coherent.cache
      start scratch startOffset src (by rw [hlen, hkept.contents]; exact hscratch) (by omega)
    rw [hfill] at hfail
    split at hfail
    · cases hfail
      exact hkept.contents
    · cases hfail

lemma rounds_batch {off length batchLen : Nat} (hlen : length ≠ 0)
    (hbatch : batchLen = min length (blockSize * 8 - off % wordLimit % blockSize)) :
    blockSpan (off % wordLimit % blockSize) batchLen +
      rounds (off + batchLen) (length - batchLen) ≤ rounds off length := by
  unfold rounds blockSpan
  simp only [wordLimit, blockSize] at hbatch ⊢
  split <;> omega

include hvol

lemma Coherent.writeBytesLoop {off fuel : Nat} {src : List UInt8} (hfuel : src.length ≤ fuel)
    (hroom : vol.cache.epoch + 2 * rounds off src.length < wordLimit) :
    vol.Writes (2 * rounds off src.length) (Disk.writeBytesLoop fuel vol.contents off src)
      (writeBytesLoop fuel vol off src) := by
  induction fuel generalizing vol off src with
  | zero => exact ⟨(hvol.kept _).wrote, fun _ => rfl⟩
  | succ fuel ih =>
    unfold Volume.writeBytesLoop Disk.writeBytesLoop
    dsimp only
    by_cases hempty : src.isEmpty
    · rw [if_pos hempty, if_pos hempty]
      exact ⟨(hvol.kept _).wrote, fun _ => rfl⟩
    rw [if_neg hempty, if_neg hempty]
    generalize hbatch : min src.length (blockSize * 8 - off % wordLimit % blockSize) = batchLen
    have hne : src.length ≠ 0 := by simpa using hempty
    have hrounds := rounds_batch hne hbatch.symm
    have htake : (src.take batchLen).length = batchLen := by
      rw [length_take]
      omega
    have hpos : 0 < batchLen := by
      have := mod_lt (off % wordLimit) (show 0 < blockSize by decide)
      omega
    obtain ⟨hwrote, hcont⟩ := hvol.writeBlockBatch
      (UInt32.ofNat (off % wordLimit / blockSize)) (off % wordLimit % blockSize)
      (src.take batchLen) (by rw [htake]; omega)
    rw [htake] at hwrote
    split
    next vol₁ hwrite =>
      rw [hwrite] at hwrote
      exact (hwrote.mono (by omega)).refuses _
    next vol₁ hwrite =>
      rw [hwrite] at hwrote hcont
      have hepoch : vol₁.cache.epoch ≤ _ := hwrote.epoch
      have hdrop := @length_drop _ batchLen src
      obtain ⟨hrest, hres⟩ := ih hwrote.coherent (show (src.drop batchLen).length ≤ _ by omega)
        (show vol₁.cache.epoch + 2 * rounds (off + batchLen) _ < _ by rw [hdrop]; omega)
      rw [hdrop] at hrest
      rw [← hcont rfl]
      exact ⟨(hwrote.trans hrest).mono (by omega), hres⟩

lemma Coherent.writeBytes (off : Nat) (src : List UInt8)
    (hroom : vol.cache.epoch + 2 * rounds off src.length < wordLimit) :
    vol.Writes (2 * rounds off src.length) (vol.contents.writeBytes off src)
      (vol.writeBytes off src) := by
  unfold Volume.writeBytes
  split
  · exact (hvol.kept _).wrote.refuses _
  · exact hvol.writeBytesLoop le_rfl hroom

lemma Coherent.flush (deviceFlushed : Bool) :
    vol.Writes 0 vol.contents (vol.flush deviceFlushed) := by
  unfold Volume.flush
  split
  · exact (hvol.kept 0).wrote.refuses _
  split
  · exact ⟨(hvol.kept 0).wrote, fun _ => rfl⟩
  split
  · exact (wrote_markWriteFailed hvol.small 0).refuses _
  · exact ⟨⟨⟨hvol.cache, hvol.small⟩, rfl, le_rfl⟩, fun _ => rfl⟩

end Volume

end NexOS.Nxfs
