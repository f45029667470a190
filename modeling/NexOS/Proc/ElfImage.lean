import NexOS.Lib.LittleEndian

/-! # ELF images

Loading of a 64-bit ELF image (`kernel/proc/process_elf.c`): the header is validated,
every loadable segment is registered, the image is kept in backing pages, and the
pages of a segment are filled from them on the first access. The checks add offsets
and sizes from the file in 64 bits. They mean what they say for an image in which none
of these sums wraps, and only for such an image.
-/

namespace NexOS.Proc.Elf

open List Nat

/-- The bytes around the image, at their distance from its start. Pointers wrap. -/
abbrev Memory : Type := UInt64 → UInt8

/-- A field of the image, low byte first. -/
def readField (memory : Memory) (offset : UInt64) (width : Nat) : Nat :=
  LittleEndian.decode ((List.range width).map fun i => memory (offset + UInt64.ofNat i))

def pageSize : UInt64 := 4096

/-- Where programs begin. -/
def elfBase : UInt64 := 0x0000008000000000

/-- Where programs must end. -/
def elfLimit : UInt64 := 0x0000008000400000

def fileBufferSize : UInt32 := 1048576

def segmentMax : Nat := 16

/-- The fields of `struct elf64_ehdr` that the loader reads. -/
structure Ehdr where
  ident : List UInt8
  type : UInt16
  machine : UInt16
  entry : UInt64
  phoff : UInt64
  phentsize : UInt16
  phnum : UInt16
  deriving DecidableEq

/-- The header of the image. -/
def readEhdr (memory : Memory) : Ehdr where
  ident := (List.range 16).map fun i => memory (UInt64.ofNat i)
  type := UInt16.ofNat (readField memory 16 2)
  machine := UInt16.ofNat (readField memory 18 2)
  entry := UInt64.ofNat (readField memory 24 8)
  phoff := UInt64.ofNat (readField memory 32 8)
  phentsize := UInt16.ofNat (readField memory 54 2)
  phnum := UInt16.ofNat (readField memory 56 2)

/-- The fields of `struct elf64_phdr` that the loader reads. -/
structure Phdr where
  type : UInt32
  flags : UInt32
  offset : UInt64
  vaddr : UInt64
  filesz : UInt64
  memsz : UInt64
  deriving DecidableEq

/-- `sizeof(struct elf64_phdr)`. -/
def phdrSize : UInt64 := 56

/-- A program header. -/
def readPhdr (memory : Memory) (start : UInt64) : Phdr where
  type := UInt32.ofNat (readField memory start 4)
  flags := UInt32.ofNat (readField memory (start + 4) 4)
  offset := UInt64.ofNat (readField memory (start + 8) 8)
  vaddr := UInt64.ofNat (readField memory (start + 16) 8)
  filesz := UInt64.ofNat (readField memory (start + 32) 8)
  memsz := UInt64.ofNat (readField memory (start + 40) 8)

/-- The program headers of the image. -/
def phdrs (memory : Memory) : List Phdr :=
  let ehdr := readEhdr memory
  (List.range ehdr.phnum.toNat).map fun i =>
    readPhdr memory (ehdr.phoff + UInt64.ofNat i * phdrSize)

/-- `struct process_elf_segment`. -/
structure Segment where
  vaddr : UInt64
  memsz : UInt64
  filesz : UInt64
  offset : UInt64
  writable : Bool
  executable : Bool
  deriving DecidableEq

/-- The part of a process session that the loader fills: `elf_image_size`, the segments,
and the backing with its pages. -/
structure Session where
  imageSize : UInt32
  segments : List Segment
  pages : List UInt64
  deriving DecidableEq

/-- Why an image is refused. -/
inductive ExecError where
  | elfHeader
  | fileTooLarge
  | segmentMap
  | segmentBounds
  | segmentAddr
  deriving DecidableEq

/-- What the loader and the fault handler get from the rest of the kernel: whether a
backing slot is free, the frames the allocator returns (zero for none), whether the
address space can be entered, whether a page can be mapped, and whether a copy to user
memory succeeds. -/
structure Kernel where
  backingFree : Bool
  frame : Nat → UInt64
  rootActive : Bool
  mapPage : UInt64 → Bool
  copyTo : UInt64 → UInt64 → Bool

/-- The pages for an image; the sum wraps. -/
def pageCount (imageSize : UInt32) : UInt32 := (imageSize + 4096 - 1) / 4096

/-- `process_create_elf_backing`: the pages, if a slot and all frames are there. -/
def createElfBacking (kernel : Kernel) (imageSize : UInt32) : Option (List UInt64) :=
  let pages := (List.range (pageCount imageSize).toNat).map kernel.frame
  if kernel.backingFree && !pages.contains 0 then some pages else none

/-- The bytes one round of the copy takes: to the end of the page or of the copy. -/
def copyChunk (imageOffset size : UInt64) : UInt64 :=
  let room := pageSize - (imageOffset &&& (pageSize - 1))
  if room > size then size else room

/-- The loop of `process_copy_from_elf_backing`: whether it completes, and the pages it
copies from. Each round copies at least one byte, so `size` rounds are enough. -/
def copyLoop (kernel : Kernel) : Nat → UInt64 → UInt64 → UInt64 → Bool × List UInt32
  | 0, _, _, size => (size = 0, [])
  | fuel + 1, imageOffset, userAddr, size =>
    if size = 0 then (true, [])
    else
      let pageIndex := (imageOffset / pageSize).toUInt32
      let chunk := copyChunk imageOffset size
      if !kernel.copyTo userAddr chunk then (false, [pageIndex])
      else
        let (done, touched) :=
          copyLoop kernel fuel (imageOffset + chunk) (userAddr + chunk) (size - chunk)
        (done, pageIndex :: touched)

/-- Bytes of the image, page by page. -/
def copyFromElfBacking (kernel : Kernel) (session : Session) (imageOffset userAddr size : UInt64) :
    Bool × List UInt32 :=
  if imageOffset + size > session.imageSize.toUInt64 then (false, [])
  else copyLoop kernel size.toNat imageOffset userAddr size

/-- The checks on the header. -/
def validateElfImage (ehdr : Ehdr) (imageSize : UInt32) : Bool := 64 ≤ imageSize &&
    ehdr.ident.take 4 = [0x7f, 69, 76, 70] && ehdr.ident[4]? = some 2 && ehdr.ident[5]? = some 1 &&
    ehdr.type = 2 && ehdr.machine = 62 &&
    !(ehdr.phoff + ehdr.phnum.toUInt64 * ehdr.phentsize.toUInt64 > imageSize.toUInt64) &&
    ehdr.phentsize.toUInt64 = phdrSize

/-- The segment that a program header describes. -/
def Phdr.segment (phdr : Phdr) : Segment where
  vaddr := phdr.vaddr
  memsz := phdr.memsz
  filesz := phdr.filesz
  offset := phdr.offset
  writable := phdr.flags &&& 2 ≠ 0
  executable := phdr.flags &&& 1 ≠ 0

/-- The checks on a segment; the sums wrap. -/
def registerElfSegment (segments : List Segment) (imageSize : UInt32) (phdr : Phdr) :
    Except ExecError (List Segment) :=
  if phdr.offset + phdr.filesz > imageSize.toUInt64 || phdr.filesz > phdr.memsz then
    .error .segmentBounds
  else if phdr.vaddr < elfBase || phdr.vaddr + phdr.memsz > elfLimit then .error .segmentAddr
  else if segmentMax ≤ segments.length then .error .segmentBounds
  else .ok (segments ++ [phdr.segment])

/-- A header that stands for a segment: `PT_LOAD` and not empty. -/
def Phdr.loads (phdr : Phdr) : Bool := phdr.type = 1 && phdr.memsz ≠ 0

/-- The loop of `process_load_elf_image` over the program headers. -/
def registerAll (imageSize : UInt32) : List Segment → List Phdr → Except ExecError (List Segment)
  | segments, [] => .ok segments
  | segments, phdr :: rest =>
    if !phdr.loads then registerAll imageSize segments rest
    else match registerElfSegment segments imageSize phdr with
      | .error error => .error error
      | .ok segments => registerAll imageSize segments rest

/-- What is filled of the page at `page` when a segment covers part of it. -/
def fillPage (kernel : Kernel) (session : Session) (segment : Segment) (page : UInt64) :
    Bool × List UInt32 :=
  let pageEnd := page + pageSize
  let copyStart := if page > segment.vaddr then page else segment.vaddr
  let copyEnd :=
    if pageEnd < segment.vaddr + segment.filesz then pageEnd else segment.vaddr + segment.filesz
  if copyEnd > copyStart then
    let imageOffset := segment.offset + (copyStart - segment.vaddr)
    if imageOffset + (copyEnd - copyStart) > session.imageSize.toUInt64 then (false, [])
    else copyFromElfBacking kernel session imageOffset copyStart (copyEnd - copyStart)
  else (true, [])

/-- The page and the segment have bytes in common, as the fault handler sees it. -/
def Segment.meets (segment : Segment) (page : UInt64) : Bool :=
  !(page ≥ segment.vaddr + segment.memsz || page + pageSize ≤ segment.vaddr)

/-- `process_handle_demand_page_fault`: whether the fault is handled, and the pages of
the backing it copies from. -/
def handleDemandPageFault (kernel : Kernel) (session : Session) (faultAddr errorCode : UInt64) :
    Bool × List UInt32 :=
  let page := faultAddr &&& ~~~(pageSize - 1)
  if errorCode &&& 1 ≠ 0 || session.imageSize = 0 then (false, [])
  else match session.segments.find? fun segment => segment.meets page with
    | none => (false, [])
    | some segment =>
      if !kernel.rootActive || !kernel.mapPage page then (false, [])
      else fillPage kernel session segment page

/-- `process_load_elf_image`: the entry point and the session. -/
def loadElfImage (kernel : Kernel) (memory : Memory) (imageSize : UInt32) :
    Except ExecError (UInt64 × Session) :=
  let ehdr := readEhdr memory
  if !validateElfImage ehdr imageSize then .error .elfHeader
  else if imageSize > fileBufferSize then .error .fileTooLarge
  else match createElfBacking kernel imageSize with
    | none => .error .segmentMap
    | some pages =>
      match registerAll imageSize [] (phdrs memory) with
      | .error error => .error error
      | .ok segments =>
        let session := ⟨imageSize, segments, pages⟩
        if !(handleDemandPageFault kernel session ehdr.entry 4).1 then .error .segmentMap
        else .ok (ehdr.entry, session)

/-! ## What the checks say about sums that do not wrap -/

variable {kernel : Kernel} {memory : Memory} {imageSize : UInt32} {session : Session}
  {segments after : List Segment}

/-- The checks on a program header, as numbers without a bound. -/
structure Segment.InImage (segment : Segment) (imageSize : UInt32) : Prop where
  file : segment.offset.toNat + segment.filesz.toNat ≤ imageSize.toNat
  filled : segment.filesz.toNat ≤ segment.memsz.toNat
  base : elfBase.toNat ≤ segment.vaddr.toNat
  limit : segment.vaddr.toNat + segment.memsz.toNat ≤ elfLimit.toNat

/-- The ends of the segment fit 64 bits. -/
def Phdr.NoWrap (phdr : Phdr) : Prop :=
  phdr.offset.toNat + phdr.filesz.toNat < 2 ^ 64 ∧ phdr.vaddr.toNat + phdr.memsz.toNat < 2 ^ 64

instance (phdr : Phdr) : Decidable phdr.NoWrap := inferInstanceAs (Decidable (_ ∧ _))

/-- A header that passes the checks is in the image exactly if its sums do not wrap. -/
lemma inImage_iff_noWrap {phdr : Phdr}
    (hreg : registerElfSegment segments imageSize phdr = .ok after) :
    phdr.segment.InImage imageSize ↔ phdr.NoWrap := by
  have hsize := imageSize.toNat_lt
  have hoff : (phdr.offset + phdr.filesz).toNat =
      (phdr.offset.toNat + phdr.filesz.toNat) % 2 ^ 64 := UInt64.toNat_add ..
  have hend : (phdr.vaddr + phdr.memsz).toNat =
      (phdr.vaddr.toNat + phdr.memsz.toNat) % 2 ^ 64 := UInt64.toNat_add ..
  unfold registerElfSegment at hreg
  split at hreg
  · cases hreg
  next hbounds =>
    split at hreg
    · cases hreg
    next haddr =>
      simp only [Bool.or_eq_true, decide_eq_true_eq, not_or, UInt64.not_lt] at hbounds haddr
      constructor
      · rintro ⟨hfile, -, -, hlimit⟩
        refine ⟨lt_of_le_of_lt hfile (by omega), lt_of_le_of_lt hlimit (by decide)⟩
      · rintro ⟨hfile, hmem⟩
        rw [mod_eq_of_lt hfile] at hoff
        rw [mod_eq_of_lt hmem] at hend
        exact ⟨hoff ▸ hbounds.1, hbounds.2, haddr.1, hend ▸ haddr.2⟩

/-- The headers that load are registered in order, after a check of each. -/
lemma registerAll_ok {headers : List Phdr}
    (hreg : registerAll imageSize segments headers = .ok after) :
    after = segments ++ (headers.filter Phdr.loads).map Phdr.segment ∧
      ∀ phdr ∈ headers, phdr.loads = true → (phdr.segment.InImage imageSize ↔ phdr.NoWrap) := by
  induction headers generalizing segments with
  | nil =>
    cases hreg
    exact ⟨by simp, fun _ hmem => absurd hmem not_mem_nil⟩
  | cons phdr rest ih =>
    rw [registerAll] at hreg
    cases hloads : phdr.loads with
    | false =>
      rw [hloads] at hreg
      obtain ⟨hafter, hrest⟩ := ih hreg
      refine ⟨by simp [hafter, hloads], fun other hmem hother => ?_⟩
      rcases mem_cons.mp hmem with rfl | hmem
      · rw [hloads] at hother
        cases hother
      · exact hrest other hmem hother
    | true =>
      simp only [hloads] at hreg
      rcases hone : registerElfSegment segments imageSize phdr with error | mid
      · simp [hone] at hreg
      simp only [hone] at hreg
      obtain ⟨hafter, hrest⟩ := ih hreg
      have hmid : mid = segments ++ [phdr.segment] := by
        unfold registerElfSegment at hone
        split at hone
        · cases hone
        split at hone
        · cases hone
        split at hone
        · cases hone
        · cases hone
          rfl
      refine ⟨by simp [hafter, hmid, hloads], fun other hmem hother => ?_⟩
      rcases mem_cons.mp hmem with rfl | hmem
      · exact inImage_iff_noWrap hone
      · exact hrest other hmem hother

/-! ## Faults -/

lemma copyChunk_le (imageOffset size : UInt64) : copyChunk imageOffset size ≤ size := by
  unfold copyChunk
  dsimp only
  split
  · exact UInt64.le_refl size
  next hroom => exact UInt64.not_lt.mp hroom

/-- A copy that ends inside the image only touches pages that hold a byte of it. -/
lemma copyLoop_pages (kernel : Kernel) (fuel : Nat) {imageOffset userAddr size : UInt64}
    {bound : Nat} (hbound : bound < 2 ^ 32)
    (hins : imageOffset.toNat + size.toNat ≤ bound) :
    ∀ page ∈ (copyLoop kernel fuel imageOffset userAddr size).2, page.toNat * 4096 < bound := by
  induction fuel generalizing imageOffset userAddr size with
  | zero => simp [copyLoop]
  | succ fuel ih =>
    rw [copyLoop]
    by_cases hsize : size = 0
    · simp [hsize]
    rw [if_neg hsize]
    have hpos : 0 < size.toNat := by
      rw [pos_iff_ne_zero]
      exact fun hzero => hsize (UInt64.toNat_inj.mp hzero)
    have hindex : (imageOffset / pageSize).toUInt32.toNat = imageOffset.toNat / 4096 := by
      change imageOffset.toNat / 4096 % 2 ^ 32 = _
      omega
    have hfirst : (imageOffset / pageSize).toUInt32.toNat * 4096 < bound := by
      omega
    have hle : copyChunk imageOffset size ≤ size := copyChunk_le imageOffset size
    generalize copyChunk imageOffset size = chunk at hle ⊢
    have hadd : (imageOffset + chunk).toNat = imageOffset.toNat + chunk.toNat := by
      rw [UInt64.le_iff_toNat_le] at hle
      rw [UInt64.toNat_add]
      omega
    have hsub : (size - chunk).toNat = size.toNat - chunk.toNat := UInt64.toNat_sub_of_le _ _ hle
    dsimp only
    split
    · simpa using hfirst
    intro page hpage
    rcases mem_cons.mp hpage with rfl | hpage
    · exact hfirst
    · refine ih ?_ page hpage
      rw [UInt64.le_iff_toNat_le] at hle
      omega

/-- Filling a page from a segment that is in the image stays in the image. -/
lemma fillPage_pages (kernel : Kernel) {segment : Segment}
    (hseg : segment.InImage session.imageSize) (page : UInt64) :
    ∀ index ∈ (fillPage kernel session segment page).2,
      index.toNat * 4096 < session.imageSize.toNat := by
  obtain ⟨hfile, hfilled, -, hlimit⟩ := hseg
  have hsize := session.imageSize.toNat_lt
  have hlimitBound : elfLimit.toNat < 2 ^ 64 := elfLimit.toNat_lt
  have hfileEnd : (segment.vaddr + segment.filesz).toNat =
      segment.vaddr.toNat + segment.filesz.toNat := by
    rw [UInt64.toNat_add]
    omega
  unfold fillPage
  dsimp only
  set copyStart := if page > segment.vaddr then page else segment.vaddr with hstart
  set copyEnd := if page + pageSize < segment.vaddr + segment.filesz then page + pageSize
    else segment.vaddr + segment.filesz with hend
  have hstartLe : segment.vaddr ≤ copyStart := by
    rw [hstart]
    split
    next hpage => exact UInt64.le_of_lt hpage
    · exact UInt64.le_refl _
  have hendLe : copyEnd.toNat ≤ segment.vaddr.toNat + segment.filesz.toNat := by
    rw [hend, ← hfileEnd]
    split
    next hpage => exact le_of_lt (UInt64.lt_iff_toNat_lt.mp hpage)
    · exact le_refl _
  split
  next hcopy =>
    rw [gt_iff_lt, UInt64.lt_iff_toNat_lt] at hcopy
    have hdistance : (copyStart - segment.vaddr).toNat = copyStart.toNat - segment.vaddr.toNat :=
      UInt64.toNat_sub_of_le _ _ hstartLe
    have hlen : (copyEnd - copyStart).toNat = copyEnd.toNat - copyStart.toNat :=
      UInt64.toNat_sub_of_le _ _ (UInt64.le_iff_toNat_le.mpr (le_of_lt hcopy))
    rw [UInt64.le_iff_toNat_le] at hstartLe
    have hoff : (segment.offset + (copyStart - segment.vaddr)).toNat =
        segment.offset.toNat + (copyStart.toNat - segment.vaddr.toNat) := by
      rw [UInt64.toNat_add]
      omega
    split
    · simp
    unfold copyFromElfBacking
    split
    · simp
    · refine copyLoop_pages kernel _ hsize ?_
      omega
  · simp

/-- A fault in a session whose segments are in the image copies from pages with bytes of
the image. -/
lemma handleDemandPageFault_pages (kernel : Kernel) (faultAddr errorCode : UInt64)
    (hsegs : ∀ segment ∈ session.segments, segment.InImage session.imageSize) :
    ∀ page ∈ (handleDemandPageFault kernel session faultAddr errorCode).2,
      page.toNat * 4096 < session.imageSize.toNat := by
  unfold handleDemandPageFault
  dsimp only
  split
  · simp
  split
  · simp
  next segment hseg =>
    split
    · simp
    · exact fillPage_pages kernel (hsegs segment (mem_of_find?_eq_some hseg)) _

/-- The pages of the backing cover the image. -/
lemma length_createElfBacking {pages : List UInt64} (hsize : imageSize ≤ fileBufferSize)
    (hpages : createElfBacking kernel imageSize = some pages) :
    imageSize.toNat ≤ pages.length * 4096 := by
  unfold createElfBacking at hpages
  dsimp only at hpages
  split at hpages
  · cases hpages
    have hcount : (pageCount imageSize).toNat = (imageSize.toNat + 4096 - 1) / 4096 := by
      rw [UInt32.le_iff_toNat_le] at hsize
      have hmax : fileBufferSize.toNat = 1048576 := rfl
      rw [pageCount, UInt32.toNat_div, UInt32.toNat_sub, UInt32.toNat_add]
      change (2 ^ 32 - 1 + (imageSize.toNat + 4096) % 2 ^ 32) % 2 ^ 32 / 4096 = _
      omega
    rw [length_map, length_range]
    omega
  · cases hpages

/-! ## Accepted images -/

/-- No sum of the image wraps. -/
def NoWrap (memory : Memory) : Prop :=
  (readEhdr memory).phoff.toNat + (readEhdr memory).phnum.toNat * 56 < 2 ^ 64 ∧
    ∀ phdr ∈ phdrs memory, phdr.loads = true → phdr.NoWrap

/-- The program headers lie in the image, every segment does, and whatever fault comes
only copies from pages that the backing has. -/
structure InBounds (memory : Memory) (imageSize : UInt32) (session : Session) : Prop where
  table : (readEhdr memory).phoff.toNat + (readEhdr memory).phnum.toNat * 56 ≤ imageSize.toNat
  segments : ∀ segment ∈ session.segments, segment.InImage imageSize
  faults : ∀ kernel faultAddr errorCode,
    ∀ page ∈ (handleDemandPageFault kernel session faultAddr errorCode).2,
      page.toNat < session.pages.length

lemma table_iff_noWrap (hvalid : validateElfImage (readEhdr memory) imageSize = true) :
    (readEhdr memory).phoff.toNat + (readEhdr memory).phnum.toNat * 56 ≤ imageSize.toNat ↔
      (readEhdr memory).phoff.toNat + (readEhdr memory).phnum.toNat * 56 < 2 ^ 64 := by
  have hsize := imageSize.toNat_lt
  simp only [validateElfImage, Bool.and_eq_true, decide_eq_true_eq, Bool.not_eq_true',
    decide_eq_false_iff_not, UInt64.not_lt] at hvalid
  obtain ⟨⟨-, htable⟩, hentry⟩ := hvalid
  rw [hentry, UInt64.le_iff_toNat_le, UInt32.toNat_toUInt64] at htable
  change ((readEhdr memory).phoff.toNat + (readEhdr memory).phnum.toNat * 56 % 2 ^ 64) % 2 ^ 64 ≤ _
    at htable
  constructor
  · omega
  · omega

/-- An image that is accepted is in bounds exactly if none of its sums wraps. -/
theorem loadElfImage_inBounds_iff (kernel : Kernel) (memory : Memory) (imageSize : UInt32)
    (entry : UInt64) (session : Session)
    (hload : loadElfImage kernel memory imageSize = .ok (entry, session)) :
    InBounds memory imageSize session ↔ NoWrap memory := by
  unfold loadElfImage at hload
  dsimp only at hload
  split at hload
  · cases hload
  next hvalid =>
    split at hload
    · cases hload
    next hsize =>
      rcases hpages : createElfBacking kernel imageSize with _ | pages
      · simp [hpages] at hload
      rcases hreg : registerAll imageSize [] (phdrs memory) with error | segments
      · simp [hpages, hreg] at hload
      simp only [hpages, hreg] at hload
      split at hload
      · cases hload
      obtain ⟨rfl, rfl⟩ : (readEhdr memory).entry = entry ∧
          (⟨imageSize, segments, pages⟩ : Session) = session := by
        simpa using hload
      obtain ⟨hsegs, hcheck⟩ := registerAll_ok hreg
      have htable := table_iff_noWrap (by simpa using hvalid)
      constructor
      · rintro ⟨hins, hin, -⟩
        refine ⟨htable.mp hins, fun phdr hmem hloads => ?_⟩
        refine (hcheck phdr hmem hloads).mp (hin _ ?_)
        rw [hsegs]
        exact mem_map_of_mem (mem_filter.mpr ⟨hmem, hloads⟩)
      · rintro ⟨hwrap, hall⟩
        have hin : ∀ segment ∈ segments, segment.InImage imageSize := by
          intro segment hmem
          rw [hsegs] at hmem
          obtain ⟨phdr, hphdr, rfl⟩ := mem_map.mp hmem
          obtain ⟨hhdr, hloads⟩ := mem_filter.mp hphdr
          exact (hcheck phdr hhdr hloads).mpr (hall phdr hhdr hloads)
        refine ⟨htable.mpr hwrap, hin, fun kernel faultAddr errorCode page hpage => ?_⟩
        have hbyte := handleDemandPageFault_pages kernel faultAddr errorCode hin page hpage
        have hcover := length_createElfBacking (UInt32.not_lt.mp hsize) hpages
        exact Nat.lt_of_mul_lt_mul_right (lt_of_lt_of_le hbyte hcover)

def imageMemory (bytes : List UInt8) : Memory := fun offset => bytes.getD offset.toNat 0

/-- An image with one program header. -/
def oneSegmentImage (phdr : Phdr) : List UInt8 := [0x7f, 69, 76, 70, 2, 1] ++ List.replicate 10 0 ++
    LittleEndian.encodeFields [2, 2, 4, 8, 8, 8, 4, 2, 2, 2, 2, 2, 2]
      [2, 62, 1, elfBase.toNat, 64, 0, 0, 64, 56, 1, 0, 0, 0] ++
    LittleEndian.encodeFields [4, 4, 8, 8, 8, 8, 8, 8]
      [phdr.type.toNat, phdr.flags.toNat, phdr.offset.toNat, phdr.vaddr.toNat, 0,
        phdr.filesz.toNat, phdr.memsz.toNat, 0]

/-- A kernel where nothing fails. -/
def readyKernel : Kernel := ⟨true, fun _ => 4096, true, fun _ => true, fun _ _ => true⟩

/-- An image of one segment. -/
theorem loadElfImage_inBounds_small :
    InBounds (imageMemory (oneSegmentImage ⟨1, 5, 0, elfBase, 120, 4096⟩)) 120
      ⟨120, [⟨elfBase, 4096, 120, 0, false, true⟩], [4096]⟩ :=
  (loadElfImage_inBounds_iff readyKernel _ _ elfBase _ (by decide +kernel)).mpr
    ⟨by decide +kernel, by decide +kernel⟩

/-- A segment whose file part begins a page before the end of the 64-bit range ends at
zero: the image is accepted, and the first fault reads far beyond the backing. -/
theorem loadElfImage_out_of_bounds : loadElfImage readyKernel
        (imageMemory (oneSegmentImage ⟨1, 5, 0xfffffffffffff000, elfBase, 4096, 4096⟩)) 120 =
      .ok (elfBase, ⟨120, [⟨elfBase, 4096, 4096, 0xfffffffffffff000, false, true⟩], [4096]⟩) ∧
    (handleDemandPageFault readyKernel
      ⟨120, [⟨elfBase, 4096, 4096, 0xfffffffffffff000, false, true⟩], [4096]⟩ elfBase 4).2 =
      [0xffffffff] ∧
    ¬InBounds (imageMemory (oneSegmentImage ⟨1, 5, 0xfffffffffffff000, elfBase, 4096, 4096⟩)) 120
      ⟨120, [⟨elfBase, 4096, 4096, 0xfffffffffffff000, false, true⟩], [4096]⟩ := by
  refine ⟨by decide +kernel, by decide +kernel, fun hin => ?_⟩
  have hpage := hin.faults readyKernel elfBase 4 0xffffffff (by decide +kernel)
  exact absurd hpage (by decide +kernel)

end NexOS.Proc.Elf
