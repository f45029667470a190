import NexOS.Lib.Versioned

/-! # The block layer and its read cache

`blockdev_read` and `blockdev_write` are cut at their locks: looking into the
cache, the transfer on the device, and the change of the cache afterwards are
separate steps, and steps of other calls may come between them. Asynchronous
requests wait in a queue and are transferred by a drain, which holds the lock of
the queue but not that of the cache.

Every block of a device carries the history of its contents. The history and the
numbers kept with a call (`floors`, `marks`) are there to speak about the age of
what a call returns; no step depends on them.
-/

namespace NexOS.Block

open Function

/-- The address of a `struct block_device`. -/
abbrev Device := BitVec 64

/-- A block address, of 64 bits. -/
abbrev Lba := BitVec 64

/-- `BLOCKDEV_READ_CACHE_ENTRIES`. -/
abbrev CacheSlot := Fin 1024

def requestQueueDepth : Nat := 8

/-- A valid `struct blockdev_read_cache_entry`. -/
structure CacheEntry (α : Type*) where
  dev : Device
  lba : Lba
  data : α

/-- What an asynchronous request asks for. -/
inductive RequestKind where
  | read
  | write
  deriving DecidableEq, Repr

/-- A `struct blockdev_async_request`. The data of a write is the content of its
buffer, whose address only matters for merging. -/
structure Request (α : Type*) where
  dev : Device
  lba : Lba
  count : Nat
  kind : RequestKind
  buffer : Nat
  hasCompletion : Bool
  data : List α

/-- Where a call of the block layer stands. -/
inductive Call (α : Type*) where
  | idle
  /-- A read before it looks into the cache. -/
  | reading (dev : Device) (lba : Lba) (count : Nat) (floors : Lba → Nat)
  /-- A read that missed, before the transfer. -/
  | missed (dev : Device) (lba : Lba) (count : Nat) (floors : Lba → Nat)
  /-- A read after a transfer that succeeded. -/
  | fetched (dev : Device) (lba : Lba) (data : List α) (marks floors : Lba → Nat)
  /-- A read after a transfer that failed. -/
  | failed (dev : Device) (lba : Lba) (count : Nat)
  /-- A read that returned its data. -/
  | returned (dev : Device) (lba : Lba) (data : List α) (floors : Lba → Nat)
  /-- A write before the transfer. -/
  | writing (dev : Device) (lba : Lba) (data : List α)
  /-- A write after the transfer. -/
  | written (dev : Device) (lba : Lba) (count : Nat) (ok : Bool) (marks : Lba → Nat)

/-- The caller can begin another call. -/
def Call.free {α : Type*} : Call α → Bool
  | .idle => true
  | .returned .. => true
  | _ => false

/-- The requests that a drain has still to transfer, and the one that is to be
queued afterwards. -/
structure Drain (α : Type*) where
  remaining : List (Request α)
  pending : Option (Request α)

/-- The block layer with its devices, its cache, the calls under way and the queue. -/
structure Layer (α : Type*) where
  /-- The block size of the device is that of the cache. -/
  sectored : Device → Bool
  disk : Device × Lba → Versioned α
  /-- The latest version whose write has completed. -/
  settled : Device × Lba → Nat
  cache : CacheSlot → Option (CacheEntry α)
  calls : Nat → Call α
  queue : List (Request α)
  draining : Option (Drain α)

variable {α : Type*}

/-- `blockdev_cache_index`. -/
def cacheIndex (dev : Device) (lba : Lba) : CacheSlot :=
  ⟨(lba ^^^ (lba >>> 17) ^^^ (dev >>> 4)).toNat % 1024, Nat.mod_lt _ (by decide)⟩

/-- The blocks `lba`, `lba + 1`, ... of a transfer, by wrapping 64-bit addition. -/
def inRange (lba : Lba) (count : Nat) (block : Lba) : Bool := decide ((block - lba).toNat < count)

/-- A read that the cache answers finds every block of it. -/
def lookup (cache : CacheSlot → Option (CacheEntry α)) (dev : Device) : Lba → Nat → Option (List α)
  | _, 0 => some []
  | lba, count + 1 =>
    match cache (cacheIndex dev lba) with
    | some entry =>
      if entry.dev = dev ∧ entry.lba = lba then
        (lookup cache dev (lba + 1) count).map (entry.data :: ·)
      else none
    | none => none

/-- The blocks that were read are kept in the cache. -/
def fill (cache : CacheSlot → Option (CacheEntry α)) (dev : Device) :
    Lba → List α → CacheSlot → Option (CacheEntry α)
  | _, [] => cache
  | lba, data :: rest =>
    fill (update cache (cacheIndex dev lba) (some ⟨dev, lba, data⟩)) dev (lba + 1) rest

/-- The cache drops the blocks of a device. -/
def invalidateDevice (cache : CacheSlot → Option (CacheEntry α)) (dev : Device) :
    CacheSlot → Option (CacheEntry α) :=
  fun slot => (cache slot).filter fun entry => decide (entry.dev ≠ dev)

/-- The cache drops a range, or the device if the range wraps. -/
def invalidateRange (cache : CacheSlot → Option (CacheEntry α)) (dev : Device) (lba : Lba)
    (count : Nat) : CacheSlot → Option (CacheEntry α) :=
  let stop := lba + BitVec.ofNat 64 count
  if stop < lba then invalidateDevice cache dev
  else fun slot => (cache slot).filter fun entry =>
    !(decide (entry.dev = dev) && decide (lba ≤ entry.lba) && decide (entry.lba < stop))

/-- What `dev->read` delivers. -/
def readDisk (disk : Device × Lba → Versioned α) (dev : Device) : Lba → Nat → List α
  | _, 0 => []
  | lba, count + 1 => (disk (dev, lba)).now :: readDisk disk dev (lba + 1) count

/-- What `dev->write` leaves behind. -/
def writeDisk (disk : Device × Lba → Versioned α) (dev : Device) :
    Lba → List α → Device × Lba → Versioned α
  | _, [] => disk
  | lba, data :: rest =>
    writeDisk (update disk (dev, lba) ((disk (dev, lba)).write data)) dev (lba + 1) rest

/-- `blockdev_request_queue_can_merge`, for requests with a buffer and blocks of
`size` bytes. -/
def canMerge (size : Nat) (left right : Request α) : Bool :=
  decide (left.dev = right.dev) && decide (left.kind = right.kind) &&
    !left.hasCompletion && !right.hasCompletion &&
    decide (left.count ≠ 0) && decide (right.count ≠ 0) &&
    decide (left.lba ≤ left.lba + BitVec.ofNat 64 left.count) &&
    decide (left.lba + BitVec.ofNat 64 left.count = right.lba) &&
    decide (left.buffer + left.count * size = right.buffer)

namespace Layer

def setCall (layer : Layer α) (caller : Nat) (call : Call α) : Layer α :=
  { layer with calls := update layer.calls caller call }

/-- A write of these versions has completed. -/
def settle (layer : Layer α) (dev : Device) (lba : Lba) (count : Nat) (marks : Lba → Nat) :
    Layer α :=
  { layer with
    settled := fun block =>
      if block.1 = dev ∧ inRange lba count block.2 then
        max (layer.settled block) (marks block.2)
      else layer.settled block }

/-- The versions on the device now. -/
def marks (layer : Layer α) (dev : Device) : Lba → Nat := fun lba => (layer.disk (dev, lba)).latest

/-- A read that the cache holds returns; another one goes to the device. -/
def performLookup (layer : Layer α) (caller : Nat) : Layer α :=
  match layer.calls caller with
  | .reading dev lba count floors =>
    match if layer.sectored dev then lookup layer.cache dev lba count else none with
    | some data => layer.setCall caller (.returned dev lba data floors)
    | none => layer.setCall caller (.missed dev lba count floors)
  | _ => layer

/-- The device answers a read, or fails. -/
def performDeviceRead (layer : Layer α) (caller : Nat) (ok : Bool) : Layer α :=
  match layer.calls caller with
  | .missed dev lba count floors =>
    layer.setCall caller
      (if ok then .fetched dev lba (readDisk layer.disk dev lba count) (layer.marks dev) floors
      else .failed dev lba count)
  | _ => layer

/-- The cache is filled and the read returns. -/
def performReadFinish (layer : Layer α) (caller : Nat) : Layer α :=
  match layer.calls caller with
  | .fetched dev lba data _ floors =>
    { layer with
      cache := if layer.sectored dev then fill layer.cache dev lba data else layer.cache
      calls := update layer.calls caller (.returned dev lba data floors) }
  | .failed dev lba count =>
    { layer with
      cache :=
        if layer.sectored dev then invalidateRange layer.cache dev lba count else layer.cache
      calls := update layer.calls caller .idle }
  | _ => layer

/-- The transfer of a write. A transfer that fails may have stored some of the
blocks. -/
def performDeviceWrite (layer : Layer α) (caller : Nat) (ok : Bool) (stored : Nat) : Layer α :=
  match layer.calls caller with
  | .writing dev lba data =>
    let next :=
      { layer with
        disk := writeDisk layer.disk dev lba (if ok then data else data.take stored) }
    next.setCall caller (.written dev lba data.length ok (next.marks dev))
  | _ => layer

/-- The blocks leave the cache and the write returns. -/
def performWriteFinish (layer : Layer α) (caller : Nat) : Layer α :=
  match layer.calls caller with
  | .written dev lba count ok marks =>
    let next :=
      { layer with
        cache := invalidateRange layer.cache dev lba count
        calls := update layer.calls caller .idle }
    if ok then next.settle dev lba count marks else next
  | _ => layer

/-- `blockdev_request_queue_submit_locked`, where the queue is not being drained. -/
def performSubmit (layer : Layer α) (size : Nat) (request : Request α) : Layer α :=
  if layer.draining.isSome then layer
  else
    match layer.queue.getLast? with
    | some last =>
      if canMerge size last request then
        { layer with
          queue := layer.queue.dropLast ++
            [{ last with
                count := (last.count + request.count) % 2 ^ 32
                data := last.data ++ request.data }] }
      else if requestQueueDepth ≤ layer.queue.length then
        { layer with draining := some ⟨layer.queue, some request⟩ }
      else { layer with queue := layer.queue ++ [request] }
    | none => { layer with queue := layer.queue ++ [request] }

/-- `blockdev_async_flush_pending` takes the lock of the queue. -/
def performDrainStart (layer : Layer α) : Layer α :=
  if layer.draining.isSome then layer
  else { layer with draining := some ⟨layer.queue, none⟩ }

/-- One round of `blockdev_request_queue_drain_locked`: the transfer of a request
and its completion. -/
def performDrainNext (layer : Layer α) (ok : Bool) (stored : Nat) : Layer α :=
  match layer.draining with
  | some ⟨request :: remaining, pending⟩ =>
    let rest := { layer with draining := some ⟨remaining, pending⟩ }
    match request.kind with
    | .read => rest
    | .write =>
      let data := request.data.take request.count
      let next :=
        { rest with
          disk := writeDisk layer.disk request.dev request.lba
            (if ok then data else data.take stored) }
      if ok then next.settle request.dev request.lba data.length (next.marks request.dev)
      else next
  | _ => layer

/-- A request that came up while the queue was drained stays queued. -/
def performDrainEnd (layer : Layer α) : Layer α :=
  match layer.draining with
  | some ⟨[], pending⟩ => { layer with queue := pending.toList, draining := none }
  | _ => layer

end Layer

/-- The lock-delimited steps of the block layer. -/
inductive Step (α : Type*) where
  | readBegin (caller : Nat) (dev : Device) (lba : Lba) (count : Nat)
  | lookup (caller : Nat)
  | deviceRead (caller : Nat) (ok : Bool)
  | readFinish (caller : Nat)
  | writeBegin (caller : Nat) (dev : Device) (lba : Lba) (data : List α)
  | deviceWrite (caller : Nat) (ok : Bool) (stored : Nat)
  | writeFinish (caller : Nat)
  | submit (size : Nat) (request : Request α)
  | drainStart
  | drainNext (ok : Bool) (stored : Nat)
  | drainEnd
  /-- `blockdev_unregister` forgets the copies of a device. -/
  | forget (dev : Device)

namespace Layer

/-- One step of one caller or of the queue. -/
def perform (layer : Layer α) : Step α → Layer α
  | .readBegin caller dev lba count =>
    if (layer.calls caller).free ∧ count ≠ 0 ∧ count < 2 ^ 32 then
      layer.setCall caller (.reading dev lba count fun block => layer.settled (dev, block))
    else layer
  | .lookup caller => layer.performLookup caller
  | .deviceRead caller ok => layer.performDeviceRead caller ok
  | .readFinish caller => layer.performReadFinish caller
  | .writeBegin caller dev lba data =>
    if (layer.calls caller).free ∧ data ≠ [] ∧ data.length < 2 ^ 32 then
      layer.setCall caller (.writing dev lba data)
    else layer
  | .deviceWrite caller ok stored => layer.performDeviceWrite caller ok stored
  | .writeFinish caller => layer.performWriteFinish caller
  | .submit size request => layer.performSubmit size request
  | .drainStart => layer.performDrainStart
  | .drainNext ok stored => layer.performDrainNext ok stored
  | .drainEnd => layer.performDrainEnd
  | .forget dev => { layer with cache := invalidateDevice layer.cache dev }

/-- The layer after `blockdev_init`, over devices with the given contents. -/
def init (sectored : Device → Bool) (contents : Device × Lba → α) : Layer α where
  sectored := sectored
  disk block := ⟨[], contents block⟩
  settled _ := 0
  cache _ := none
  calls _ := .idle
  queue := []
  draining := none

end Layer

end NexOS.Block
