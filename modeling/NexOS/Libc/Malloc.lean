import NexOS.Lib.ByteMemory

/-! # The heap of a user program

The allocator of the C library: blocks with a header in front of each, a list of the free
blocks through their headers, and whole pages from the kernel when no free block is large
enough. A loop over the list that has made as many rounds as there are addresses is one
that never ends; the result is then `none`.
-/

namespace NexOS.Libc

def mallocAlign : Nat := 16

def mallocMinSplit : Nat := 16

def mallocMagicFree : Nat := 0x4e58465245454850

def mallocMagicAlloc : Nat := 0x4e58414c4c4f4348

def mallocMaxChunkPages : Nat := 2048

def pageSize : Nat := 4096

/-- `sizeof(struct malloc_block)`. -/
def headerSize : Nat := 32

/-- The largest value of `size_t`. -/
def sizeMax : Nat := addressLimit - 1

/-- The difference of two values of `size_t`. -/
def sizeSub (a b : Nat) : Nat := (a + (addressLimit - b % addressLimit)) % addressLimit

/-- The fields of a block's header. -/
structure Header where
  size : Nat
  next : Nat
  magic : Nat
  reserved : Nat
  deriving DecidableEq

/-- The header of a block as memory has it. -/
def headerAt (mem : ByteMemory) (block : Nat) : Header where
  size := mem.load block
  next := mem.load (block + 8)
  magic := mem.load (block + 16)
  reserved := mem.load (block + 24)

def setSize (mem : ByteMemory) (block size : Nat) : ByteMemory := mem.store block size

def setNext (mem : ByteMemory) (block next : Nat) : ByteMemory := mem.store (block + 8) next

def setMagic (mem : ByteMemory) (block magic : Nat) : ByteMemory := mem.store (block + 16) magic

def setReserved (mem : ByteMemory) (block reserved : Nat) : ByteMemory :=
  mem.store (block + 24) reserved

/-- The memory of the program, the head of its free list and the pages it got. -/
structure Heap where
  mem : ByteMemory
  freeList : Nat
  pages : List Nat

/-- Round up to a multiple of `mallocAlign`. -/
def mallocAlignUp (value : Nat) : Nat :=
  (value + (mallocAlign - 1)) % addressLimit / mallocAlign * mallocAlign

/-- The payload begins behind the header. -/
def mallocBlockPayload (block : Nat) : Nat := (block + headerSize) % addressLimit

/-- The address behind the payload. -/
def mallocBlockEnd (mem : ByteMemory) (block : Nat) : Nat :=
  (mallocBlockPayload block + (headerAt mem block).size) % addressLimit

/-! ## The free list -/

/-- The walk of `malloc_insert_free_block` to the place of a block: the block before it
and the block after it. -/
def insertPlace (mem : ByteMemory) (block : Nat) : Nat → Nat → Nat → Option (Nat × Nat)
  | 0, _, _ => none
  | fuel + 1, prev, cur =>
    if cur ≠ 0 ∧ cur < block then insertPlace mem block fuel cur (headerAt mem cur).next
    else some (prev, cur)

/-- Let the block `prev`, or the head of the list without one, point to a block. -/
def relink (heap : Heap) (prev target : Nat) : Heap :=
  if prev ≠ 0 then { heap with mem := setNext heap.mem prev target }
  else { heap with freeList := target }

/-- The second block becomes part of the first. -/
def absorb (mem : ByteMemory) (first second : Nat) : ByteMemory :=
  let grown := setSize mem first
    ((headerAt mem first).size + (headerSize + (headerAt mem second).size))
  setNext grown first (headerAt grown second).next

/-- Join a linked block with the one before it, if they touch. The result names the block
that is left. -/
def joinPrev (heap : Heap) (prev block : Nat) : Heap × Nat :=
  if prev ≠ 0 ∧ mallocBlockEnd heap.mem prev = block then
    ({ heap with mem := absorb heap.mem prev block }, prev)
  else (heap, block)

/-- A block is joined with the next one if they touch. -/
def joinNext (heap : Heap) (block : Nat) : Heap :=
  let next := (headerAt heap.mem block).next
  if next ≠ 0 ∧ mallocBlockEnd heap.mem block = next then
    { heap with mem := absorb heap.mem block next }
  else heap

/-- A block goes to its place in the free list and joins its neighbours. -/
def mallocInsertFreeBlock (heap : Heap) (block : Nat) : Option Heap :=
  if block = 0 then some heap
  else
    let marked := setReserved (setMagic heap.mem block mallocMagicFree) block 0
    match insertPlace marked block addressLimit 0 heap.freeList with
    | none => none
    | some (prev, cur) =>
      let linked := relink { heap with mem := setNext marked block cur } prev block
      let (joined, block) := joinPrev linked prev block
      some (joinNext joined block)

/-! ## Pages -/

/-- The kernel's answer to `page_alloc`: a fresh page of zeros, or `0`. -/
def pageAlloc (heap : Heap) : List Nat → Nat × Heap × List Nat
  | [] => (0, heap, [])
  | page :: answers =>
    if page = 0 then (0, heap, answers)
    else
      (page,
        { heap with
          mem := fun x => if page ≤ x ∧ x < page + pageSize then 0 else heap.mem x
          pages := page :: heap.pages },
        answers)

def pageFree (heap : Heap) (page : Nat) : Heap := { heap with pages := heap.pages.erase page }

/-- The page a number of pages behind another. -/
def pageAfter (base i : Nat) : Nat := (base + i * pageSize) % addressLimit

/-- Pages that were requested go back. -/
def releaseRun (heap : Heap) (base count : Nat) : Heap :=
  (List.range count).foldl (fun heap j => pageFree heap (pageAfter base j)) heap

/-- More pages in a row; if one lies elsewhere, all of them go back. -/
def requestRun (base : Nat) : Nat → Nat → Heap → List Nat → Heap × Bool
  | 0, _, heap, _ => (heap, true)
  | count + 1, i, heap, answers =>
    let (page, grown, rest) := pageAlloc heap answers
    if page ≠ pageAfter base i then
      (releaseRun (if page ≠ 0 then pageFree grown page else grown) base i, false)
    else requestRun base count (i + 1) grown rest

/-- The header of a new free block. -/
def freeHeader (mem : ByteMemory) (block size next : Nat) : ByteMemory :=
  setReserved (setMagic (setNext (setSize mem block size) block next) block mallocMagicFree) block 0

/-- A free block over new pages. -/
def requestBlock (heap : Heap) (answers : List Nat) (pageCount : Nat) : Option (Heap × Bool) :=
  let (base, first, rest) := pageAlloc heap answers
  if base = 0 then some (first, false)
  else
    match requestRun base (pageCount - 1) 1 first rest with
    | (heap, false) => some (heap, false)
    | (heap, true) =>
      let mem := freeHeader heap.mem base (pageCount * pageSize - headerSize) 0
      (mallocInsertFreeBlock { heap with mem := mem } base).map fun heap => (heap, true)

/-- Pages for a payload, if the kernel has them in a row. -/
def mallocRequestPages (heap : Heap) (answers : List Nat) (payloadSize : Nat) :
    Option (Heap × Bool) :=
  if sizeMax - headerSize < payloadSize then some (heap, false)
  else
    let totalSize := payloadSize + headerSize
    if sizeMax - (pageSize - 1) < totalSize then some (heap, false)
    else
      let pageCount := (totalSize + pageSize - 1) / pageSize
      if pageCount = 0 ∨ mallocMaxChunkPages < pageCount then some (heap, false)
      else requestBlock heap answers pageCount

/-! ## Allocation -/

/-- The first free block that is large enough and the one before it, or `0` twice. -/
def mallocFindFreeBlock (mem : ByteMemory) (size : Nat) : Nat → Nat → Nat → Option (Nat × Nat)
  | 0, _, _ => none
  | fuel + 1, prev, cur =>
    if cur = 0 then some (0, 0)
    else if size ≤ (headerAt mem cur).size then some (cur, prev)
    else mallocFindFreeBlock mem size fuel cur (headerAt mem cur).next

/-- A block in use gives back what it does not need. -/
def mallocSplitAllocatedBlock (heap : Heap) (block size : Nat) : Option Heap :=
  if block = 0 ∨ (headerAt heap.mem block).size <
      (size + headerSize + mallocMinSplit) % addressLimit then some heap
  else
    let extra := (mallocBlockPayload block + size) % addressLimit
    let rest := sizeSub (sizeSub (headerAt heap.mem block).size size) headerSize
    let mem := freeHeader heap.mem extra rest 0
    mallocInsertFreeBlock { heap with mem := setSize mem block size } extra

/-- A block leaves the free list, cut if it is large. -/
def takeBlock (heap : Heap) (block prev size : Nat) : Heap :=
  if (size + headerSize + mallocMinSplit) % addressLimit ≤ (headerAt heap.mem block).size then
    let next := (mallocBlockPayload block + size) % addressLimit
    let rest := sizeSub (sizeSub (headerAt heap.mem block).size size) headerSize
    let mem := freeHeader heap.mem next rest (headerAt heap.mem block).next
    let linked := relink { heap with mem := mem } prev next
    { linked with mem := setSize linked.mem block size }
  else relink heap prev (headerAt heap.mem block).next

/-- The end of `malloc`, with the block that was found. -/
def handOut (heap : Heap) (block prev size : Nat) : Heap × Nat :=
  let taken := takeBlock heap block prev size
  let mem := setReserved (setMagic (setNext taken.mem block 0) block mallocMagicAlloc) block 0
  ({ taken with mem := mem }, mallocBlockPayload block)

/-- `malloc_find_free_block` from the head of the list. -/
def findBlock (heap : Heap) (size : Nat) : Option (Nat × Nat) :=
  mallocFindFreeBlock heap.mem size addressLimit 0 heap.freeList

/-- The first free block that is large enough, over new pages if there is none. -/
def malloc (heap : Heap) (answers : List Nat) (size : Nat) : Option (Heap × Nat) :=
  if size = 0 then some (heap, 0)
  else if sizeMax - (mallocAlign - 1) < size then some (heap, 0)
  else
    let size := mallocAlignUp size
    match findBlock heap size with
    | none => none
    | some (block, prev) =>
      if block = 0 then
        match mallocRequestPages heap answers size with
        | none => none
        | some (heap, false) => some (heap, 0)
        | some (heap, true) =>
          match findBlock heap size with
          | none => none
          | some (block, prev) =>
            if block = 0 then some (heap, 0) else some (handOut heap block prev size)
      else some (handOut heap block prev size)

def blockOf (ptr : Nat) : Nat := sizeSub ptr headerSize

/-- A block without the mark of a block in use is left alone. -/
def free (heap : Heap) (ptr : Nat) : Option Heap :=
  if ptr = 0 then some heap
  else if (headerAt heap.mem (blockOf ptr)).magic ≠ mallocMagicAlloc then some heap
  else mallocInsertFreeBlock heap (blockOf ptr)

/-- An array of zeros, if its size fits a word. -/
def calloc (heap : Heap) (answers : List Nat) (nmemb size : Nat) : Option (Heap × Nat) :=
  if nmemb ≠ 0 ∧ sizeMax / nmemb < size then some (heap, 0)
  else
    let total := nmemb * size % addressLimit
    match malloc heap answers total with
    | none => none
    | some (heap, ptr) =>
      if ptr = 0 then some (heap, 0)
      else some ({ heap with mem := heap.mem.storeBytes ptr (List.replicate total 0) }, ptr)

/-- In place if the block is large enough, by a copy if not. -/
def realloc (heap : Heap) (answers : List Nat) (ptr size : Nat) : Option (Heap × Nat) :=
  if ptr = 0 then malloc heap answers size
  else if size = 0 then (free heap ptr).map fun heap => (heap, 0)
  else if sizeMax - (mallocAlign - 1) < size then some (heap, 0)
  else if (headerAt heap.mem (blockOf ptr)).magic ≠ mallocMagicAlloc then some (heap, 0)
  else
    let size := mallocAlignUp size
    if size ≤ (headerAt heap.mem (blockOf ptr)).size then
      (mallocSplitAllocatedBlock heap (blockOf ptr) size).map fun heap => (heap, ptr)
    else
      match malloc heap answers size with
      | none => none
      | some (heap, newPtr) =>
        if newPtr = 0 then some (heap, 0)
        else
          let blockSize := (headerAt heap.mem (blockOf ptr)).size
          let copySize := if blockSize < size then blockSize else size
          (free { heap with mem := heap.mem.copyBytes newPtr ptr copySize } ptr).map
            fun heap => (heap, newPtr)

end NexOS.Libc
