import NexOS.Lib.GuardedRuns
import NexOS.Lib.Probing

/-! # The physical page allocator

Free pages are kept on a stack. Their state and reference counts are kept in
tables beside an open-addressing index from physical addresses to slots, filled
once from the boot memory map and only read afterwards.
-/

namespace NexOS.Mem

open Function

def pageSize : Nat := 4096

def maxTrackedPages : Nat := 131072

def pageIndexSize : Nat := maxTrackedPages * 2

def directMapLimit : Nat := 0x100000000

/-- What the index says about a page. -/
inductive PageState where
  | unused
  | free
  | allocated
  | reserved
  deriving DecidableEq, Repr

/-- The allocator's tables. `stack` is the part of `free_page_stack` below
`free_page_count`, bottom first; the other tables are indexed by slot. -/
structure Pmm where
  stack : List Nat
  phys : Nat → Nat
  refCount : Nat → Nat
  state : Nat → PageState
  trackedCount : Nat
  droppedCount : Nat

/-- An entry of the boot memory map. -/
structure MemmapEntry where
  base : Nat
  length : Nat
  type : Nat

def memmapUsable : Nat := 1

def alignUp (value : Nat) : Nat := (value + pageSize - 1) % 2 ^ 64 / pageSize * pageSize

def alignDown (value : Nat) : Nat := value / pageSize * pageSize

def rangeOverlaps (baseA endA baseB endB : Nat) : Bool := baseA < endB && baseB < endA

/-- The end of a range, unless it wraps. -/
def rangeEnd (base size : Nat) : Option Nat :=
  if size > 2 ^ 64 - 1 - base then none else some (base + size)

/-- The place where the search for a page begins. -/
def pageHash (physAddr : Nat) : Nat :=
  let pageNumber := physAddr / pageSize
  let pageNumber := pageNumber ^^^ (pageNumber >>> 33)
  let pageNumber := pageNumber * 0xff51afd7ed558ccd % 2 ^ 64
  let pageNumber := pageNumber ^^^ (pageNumber >>> 33)
  pageNumber % pageIndexSize

namespace Pmm

/-- No page is known. -/
def boot : Pmm where
  stack := []
  phys := fun _ => 0
  refCount := fun _ => 0
  state := fun _ => .unused
  trackedCount := 0
  droppedCount := 0

/-- The place of a page, or the one it would get. -/
def pageIndexFind (s : Pmm) (physAddr : Nat) : Nat :=
  Probing.search pageIndexSize 0 s.phys physAddr pageIndexSize (pageHash physAddr)

/-- The slot of a page, by the test that every operation repeats. -/
def pageSlot (s : Pmm) (physAddr : Nat) : Option Nat :=
  let index := s.pageIndexFind physAddr
  if index ≥ pageIndexSize ∨ s.phys index ≠ physAddr then none else some index

def setSlot (s : Pmm) (index : Nat) (state : PageState) (refCount : Nat) : Pmm :=
  { s with
    state := update s.state index state
    refCount := update s.refCount index refCount }

/-- A page enters the index as a free one. -/
def pageIndexAdd (s : Pmm) (physAddr : Nat) : Option Pmm :=
  let index := s.pageIndexFind physAddr
  if index ≥ pageIndexSize ∨ s.phys index ≠ 0 then none
  else some ({ s with phys := update s.phys index physAddr }.setSlot index .free 0)

def pageRefSet (s : Pmm) (physAddr refCount : Nat) : Pmm :=
  match s.pageSlot physAddr with
  | none => s
  | some index => { s with refCount := update s.refCount index refCount }

/-- A free page becomes an allocated one with one user. -/
def pageMarkAllocated (s : Pmm) (physAddr : Nat) : Option Pmm :=
  match s.pageSlot physAddr with
  | none => none
  | some index =>
    if s.state index ≠ .free ∨ s.refCount index ≠ 0 then none
    else some (s.setSlot index .allocated 1)

/-- The page is free and has no users. -/
def pageIsFree (s : Pmm) (physAddr : Nat) : Bool :=
  match s.pageSlot physAddr with
  | none => false
  | some index => s.state index = .free && s.refCount index = 0

/-! ## Initialisation -/

/-- The loop over the pages of one region, from its end downwards; `n` pages
are left above `regionBase`. -/
def addRegion (kernelBase kernelEnd regionBase : Nat) : Nat → Pmm → Pmm
  | 0, s => s
  | n + 1, s =>
    let pageBase := regionBase + n * pageSize
    if rangeOverlaps pageBase (pageBase + pageSize) kernelBase kernelEnd then
      addRegion kernelBase kernelEnd regionBase n s
    else if s.trackedCount ≥ maxTrackedPages then
      { s with droppedCount := (s.droppedCount + (n + 1)) % 2 ^ 32 }
    else
      match s.pageIndexAdd pageBase with
      | none =>
        addRegion kernelBase kernelEnd regionBase n
          { s with droppedCount := (s.droppedCount + 1) % 2 ^ 32 }
      | some added =>
        addRegion kernelBase kernelEnd regionBase n
          { added with
            stack := added.stack ++ [pageBase]
            trackedCount := added.trackedCount + 1 }

/-- The pages of an entry of the memory map that the kernel does not use. -/
def addEntry (kernelBase kernelEnd : Nat) (s : Pmm) (entry : MemmapEntry) : Pmm :=
  if entry.type ≠ memmapUsable then s
  else
    match rangeEnd entry.base entry.length with
    | none => s
    | some rawEnd =>
      let regionBase := alignUp entry.base
      let regionEnd := alignDown rawEnd
      if regionEnd ≤ regionBase then s
      else if regionBase ≥ directMapLimit then
        { s with
          droppedCount := (s.droppedCount + (regionEnd - regionBase) / pageSize) % 2 ^ 32 }
      else
        let clipped :=
          if regionEnd > directMapLimit then
            { s with
              droppedCount := (s.droppedCount + (regionEnd - directMapLimit) / pageSize) % 2 ^ 32 }
          else s
        let regionEnd := min regionEnd directMapLimit
        let regionBase := max regionBase 0x100000
        addRegion kernelBase kernelEnd regionBase ((regionEnd - regionBase) / pageSize) clipped

/-- `pmm_init`. A kernel range that does not fit 64 bits leaves the tables as
they were. -/
def init (s : Pmm) (memmap : List MemmapEntry) (kernelPhysAddr kernelPhysSize : Nat) : Pmm :=
  match rangeEnd kernelPhysAddr kernelPhysSize with
  | none => s
  | some rawEnd =>
    memmap.foldl (addEntry (alignDown kernelPhysAddr) (alignUp rawEnd)) boot

/-! ## Allocation -/

/-- The last page of the stack. -/
def allocPage (s : Pmm) : Nat × Pmm :=
  match s.stack.getLast? with
  | none => (0, s)
  | some physAddr =>
    let popped := { s with stack := s.stack.dropLast }
    match popped.pageMarkAllocated physAddr with
    | none => (0, popped)
    | some marked => (physAddr, marked)

/-- The search for a page below a limit, from the top of the stack down. -/
def scanBelow (s : Pmm) (maxPhysExclusive : Nat) : Nat → Nat × Pmm
  | 0 => (0, s)
  | index + 1 =>
    let physAddr := s.stack.getD index 0
    if physAddr + pageSize > maxPhysExclusive then scanBelow s maxPhysExclusive index
    else if s.pageIsFree physAddr then
      let removed := { s with stack := s.stack.eraseIdx index }
      match removed.pageMarkAllocated physAddr with
      | none => (0, removed)
      | some marked => (physAddr, marked)
    else (0, s)

/-- The last page of the stack below a limit. -/
def allocPageBelow (s : Pmm) (maxPhysExclusive : Nat) : Nat × Pmm :=
  if maxPhysExclusive ≤ pageSize ∨ s.stack.length = 0 then (0, s)
  else s.scanBelow maxPhysExclusive s.stack.length

/-- The search that both contiguous allocators make, from the top of the stack
down: `run` entries from `index` on descend by one page each. The result is the
position of the lowest entry of a run of `pageCount`. -/
def searchRun (usable : Nat → Bool) (stack : List Nat) (pageCount : Nat) : Nat → Nat → Option Nat
  | 0, _ => none
  | index + 1, run =>
    let current := stack.getD (index + 1) 0
    let previous := stack.getD index 0
    if usable current && usable previous && previous == current + pageSize then
      if run + 1 = pageCount then some index
      else searchRun usable stack pageCount index (run + 1)
    else searchRun usable stack pageCount index 1

/-- The addresses of `pageCount` pages from `base` on. -/
def contiguousPages (base pageCount : Nat) : List Nat :=
  (List.range pageCount).map fun i => base + i * pageSize

/-- A row of pages leaves the stack. -/
def removeRun (s : Pmm) (allocStart pageCount : Nat) : Pmm :=
  { s with stack := s.stack.take allocStart ++ s.stack.drop (allocStart + pageCount) }

/-- Mark pages as allocated, stopping at the first that is not free. -/
def markAllocatedAll : List Nat → Pmm → Pmm × Bool
  | [], s => (s, true)
  | physAddr :: rest, s =>
    match s.pageMarkAllocated physAddr with
    | none => (s, false)
    | some marked => markAllocatedAll rest marked

/-- Pages in a row, as they lie in the stack. -/
def allocContiguous (s : Pmm) (pageCount : Nat) : Nat × Pmm :=
  if pageCount = 0 ∨ s.stack.length < pageCount then (0, s)
  else
    match searchRun (fun _ => true) s.stack pageCount (s.stack.length - 1) 1 with
    | none => (0, s)
    | some allocStart =>
      let base := s.stack.getD (allocStart + pageCount - 1) 0
      if (contiguousPages base pageCount).all s.pageIsFree then
        let marked := markAllocatedAll (contiguousPages base pageCount)
          (s.removeRun allocStart pageCount)
        (if marked.2 then base else 0, marked.1)
      else (0, s)

/-- The run that `pmm_alloc_contiguous_below` takes for several pages. -/
def findRunBelow (s : Pmm) (pageCount maxPhysExclusive : Nat) : Option Nat :=
  if s.stack.length < pageCount ∨ pageCount < 2 ∨ maxPhysExclusive ≤ pageCount * pageSize then none
  else
    searchRun (fun physAddr => physAddr + pageSize ≤ maxPhysExclusive) s.stack pageCount
      (s.stack.length - 1) 1

/-- `pmm_alloc_contiguous_below`. Unlike the other allocators it writes only
the reference counts of a run of several pages, not their states. -/
def allocContiguousBelow (s : Pmm) (pageCount maxPhysExclusive : Nat) : Nat × Pmm :=
  if pageCount = 0 ∨ s.stack.length < pageCount then (0, s)
  else if pageCount = 1 then s.allocPageBelow maxPhysExclusive
  else
    match s.findRunBelow pageCount maxPhysExclusive with
    | none => (0, s)
    | some allocStart =>
      let base := s.stack.getD (allocStart + pageCount - 1) 0
      (base, (contiguousPages base pageCount).foldl (fun s physAddr => s.pageRefSet physAddr 1)
        (s.removeRun allocStart pageCount))

/-! ## References and reservation -/

/-- One more user of a page. -/
def retainPage (s : Pmm) (physAddr : Nat) : Bool × Pmm :=
  if physAddr % pageSize ≠ 0 then (false, s)
  else
    match s.pageSlot physAddr with
    | none => (false, s)
    | some index =>
      if s.state index ≠ .allocated ∨ s.refCount index = 0 ∨ s.refCount index = 0xffffffff then
        (false, s)
      else
        (true, { s with
          refCount := update s.refCount index (s.refCount index + 1) })

/-- One user less; without users the page is free again. -/
def releasePage (s : Pmm) (physAddr : Nat) : Bool × Pmm :=
  if physAddr % pageSize ≠ 0 then (false, s)
  else
    match s.pageSlot physAddr with
    | none => (false, s)
    | some index =>
      if s.state index ≠ .allocated ∨ s.refCount index = 0 then (false, s)
      else if s.refCount index - 1 ≠ 0 then
        (true, { s with
          refCount := update s.refCount index (s.refCount index - 1) })
      else if s.stack.length ≥ maxTrackedPages then
        (false, { s with refCount := update s.refCount index 1 })
      else (true, { s.setSlot index .free 0 with stack := s.stack ++ [physAddr] })

def freePage (s : Pmm) (physAddr : Nat) : Bool × Pmm := s.releasePage physAddr

/-- The number of users of a page. -/
def refCountOf (s : Pmm) (physAddr : Nat) : Nat :=
  if physAddr % pageSize ≠ 0 then 0
  else ((s.pageSlot physAddr).map s.refCount).getD 0

/-- A free page is set aside. -/
def pageReserve (s : Pmm) (physAddr : Nat) : Pmm :=
  match s.pageSlot physAddr with
  | none => s
  | some index => if s.state index = .free then s.setSlot index .reserved 0 else s

/-- The pages of a range are set aside. -/
def reserveRange (s : Pmm) (base size : Nat) : Pmm :=
  if size = 0 then s
  else
    match rangeEnd base size with
    | none => s
    | some rawEnd =>
      let reserveBase := alignDown base
      let reserveEnd := alignUp rawEnd
      if reserveEnd ≤ reserveBase then s
      else
        let overlaps := fun physAddr =>
          rangeOverlaps physAddr (physAddr + pageSize) reserveBase reserveEnd
        { (s.stack.filter overlaps).foldl pageReserve s with
          stack := s.stack.filter fun physAddr => !overlaps physAddr }

end Pmm

/-! ## Operation sequences -/

/-- The calls on the page allocator. -/
inductive PmmOp where
  | allocPage
  | allocPageBelow (maxPhysExclusive : Nat)
  | allocContiguous (pageCount : Nat)
  | allocContiguousBelow (pageCount maxPhysExclusive : Nat)
  | retainPage (physAddr : Nat)
  | releasePage (physAddr : Nat)
  | freePage (physAddr : Nat)
  | reserveRange (base size : Nat)

namespace Pmm

/-- Perform one operation. The result is the address or the truth value that
the operation returns. -/
def step (s : Pmm) : PmmOp → Nat × Pmm
  | .allocPage => s.allocPage
  | .allocPageBelow maxPhysExclusive => s.allocPageBelow maxPhysExclusive
  | .allocContiguous pageCount => s.allocContiguous pageCount
  | .allocContiguousBelow pageCount maxPhysExclusive =>
    s.allocContiguousBelow pageCount maxPhysExclusive
  | .retainPage physAddr => ((s.retainPage physAddr).1.toNat, (s.retainPage physAddr).2)
  | .releasePage physAddr => ((s.releasePage physAddr).1.toNat, (s.releasePage physAddr).2)
  | .freePage physAddr => ((s.freePage physAddr).1.toNat, (s.freePage physAddr).2)
  | .reserveRange base size => (0, s.reserveRange base size)

/-- The allocator after a list of calls. -/
def run (s : Pmm) (ops : List PmmOp) : Pmm := GuardedRuns.run (fun s op => (s.step op).2) s ops

/-- The pages that a call returns. -/
def handedOut (s : Pmm) : PmmOp → List Nat
  | .allocPage => contiguousPages s.allocPage.1 (if s.allocPage.1 = 0 then 0 else 1)
  | .allocPageBelow maxPhysExclusive =>
    contiguousPages (s.allocPageBelow maxPhysExclusive).1
      (if (s.allocPageBelow maxPhysExclusive).1 = 0 then 0 else 1)
  | .allocContiguous pageCount =>
    contiguousPages (s.allocContiguous pageCount).1
      (if (s.allocContiguous pageCount).1 = 0 then 0 else pageCount)
  | .allocContiguousBelow pageCount maxPhysExclusive =>
    contiguousPages (s.allocContiguousBelow pageCount maxPhysExclusive).1
      (if (s.allocContiguousBelow pageCount maxPhysExclusive).1 = 0 then 0 else pageCount)
  | _ => []

end Pmm

end NexOS.Mem
