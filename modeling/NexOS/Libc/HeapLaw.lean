import NexOS.Libc.HeapRuns

/-! # The heap keeps its promises

In every run in which no page is the last one that has an address, all calls return and
the program finds its blocks and their bytes as it left them.
-/

namespace NexOS.Libc

open Function List Nat ByteMemory NexOS.Interval GuardedRuns

/-- A block of the program in the heap. -/
structure Live.Good (heap : Heap) (l : Live) : Prop where
  high : headerSize ≤ l.ptr
  large : l.size ≤ l.contents.length
  header : headerAt heap.mem l.block.start = usedFields l.block
  contents : ∀ (i : Nat) (hi : i < l.contents.length), heap.mem (l.ptr + i) = l.contents[i]

/-- The blocks of the program are the blocks of the heap that are in use. -/
structure Consistent (heap : Heap) (live : List Live) : Prop where
  partition : ∃ blocks, Partition heap blocks (live.map Live.block)
  good : ∀ l ∈ live, l.Good heap

variable {heap heap' : Heap} {live rest : List Live} {blocks used : List Interval} {l : Live}
  {expected : List UInt8} {u b : Interval}
variable {answers : List Nat} {ptr size : Nat}

lemma Live.payload_start (hhigh : headerSize ≤ l.ptr) : l.block.start + headerSize = l.ptr :=
  Nat.sub_add_cancel hhigh

lemma Live.payloadSize_block (hhigh : headerSize ≤ l.ptr) :
    payloadSize l.block = l.contents.length := by
  unfold payloadSize Live.block
  dsimp only
  omega

lemma Live.Good.frame (hgood : l.Good heap) (hblock : IsBlock l.block)
    (hsame : SameInside used heap.mem heap'.mem) (hused : l.block ∈ used) : l.Good heap' where
  high := hgood.high
  large := hgood.large
  header := by
    rw [hblock.headerAt_eq hsame hused]
    exact hgood.header
  contents := by
    intro i hi
    refine (hsame l.block hused _ ⟨?_, ?_⟩).trans (hgood.contents i hi)
    · show l.ptr - headerSize ≤ l.ptr + i
      omega
    · show l.ptr + i < l.ptr + l.contents.length
      omega

namespace Consistent

lemma perm {live' : List Live} (hcons : Consistent heap live) (hperm : live.Perm live') :
    Consistent heap live' where
  partition := by
    obtain ⟨blocks, hpart⟩ := hcons.partition
    exact ⟨blocks, hpart.perm (hperm.map _)⟩
  good := fun l hl => hcons.good l (hperm.mem_iff.mpr hl)

/-- The blocks stay good when their bytes stay. -/
lemma frame (hcons : Consistent heap live) (hpart : Partition heap' blocks (live.map Live.block))
    (hsame : SameInside (live.map Live.block) heap.mem heap'.mem) : Consistent heap' live where
  partition := ⟨blocks, hpart⟩
  good := fun l hl => (hcons.good l hl).frame (hpart.isBlock _ (mem_map_of_mem hl)) hsame
    (mem_map_of_mem hl)

end Consistent

/-! ## Blocks that are handed out -/

lemma bytes_length (mem : ByteMemory) (addr count : Nat) :
    (mem.bytes addr count).length = count := by
  unfold ByteMemory.bytes
  rw [length_map, length_range]

lemma getElem_bytes {mem : ByteMemory} {addr count i : Nat}
    (hi : i < (mem.bytes addr count).length) :
    (mem.bytes addr count)[i] = mem ((addr + i) % addressLimit) := by
  simp only [ByteMemory.bytes, getElem_map, getElem_range]

lemma record_contents (hu : IsBlock u) (hhdr : headerAt heap.mem u.start = usedFields u) :
    (record heap (u.start + headerSize) size expected).contents = expected.take (payloadSize u) ++
      (heap.mem.bytes (u.start + headerSize) (payloadSize u)).drop expected.length := by
  have hsize : (headerAt heap.mem (blockOf (u.start + headerSize))).size = payloadSize u := by
    rw [Partition.blockOf_eq hu, hhdr]
    rfl
  unfold record
  dsimp only
  rw [hsize, bytes_length]

lemma record_length (hu : IsBlock u) (hhdr : headerAt heap.mem u.start = usedFields u) :
    (record heap (u.start + headerSize) size expected).contents.length = payloadSize u := by
  rw [record_contents hu hhdr, length_append, length_take, length_drop, bytes_length]
  omega

lemma record_block (hu : IsBlock u) (hhdr : headerAt heap.mem u.start = usedFields u) :
    (record heap (u.start + headerSize) size expected).block = u := by
  have hlen := @record_length heap expected u size hu hhdr
  have hstop := hu.stop_eq
  unfold Live.block
  rw [hlen]
  show (⟨u.start + headerSize - headerSize, u.start + headerSize + payloadSize u⟩ : Interval) = u
  rw [Nat.add_sub_cancel, hstop]

/-- A block that begins with the bytes that are expected. -/
lemma record_good (hu : IsBlock u) (hhdr : headerAt heap.mem u.start = usedFields u)
    (hlarge : size ≤ payloadSize u)
    (hexp : ∀ (i : Nat) (hi : i < expected.length), i < payloadSize u →
      heap.mem (u.start + headerSize + i) = expected[i]) :
    (record heap (u.start + headerSize) size expected).Good heap where
  high := Nat.le_add_left _ _
  large := by
    rw [record_length hu hhdr]
    exact hlarge
  header := by rw [record_block hu hhdr, hhdr]
  contents := by
    intro i hi
    have hlen := @record_length heap expected u size hu hhdr
    have hilt : i < payloadSize u := hlen ▸ hi
    have hbelow := Partition.payload_le hu
    show heap.mem (u.start + headerSize + i) = _
    rw [getElem_of_eq (record_contents hu hhdr)]
    by_cases hknown : i < expected.length
    · rw [getElem_append_left (by rw [length_take]; omega), getElem_take]
      exact hexp i hknown hilt
    -- behind what is expected stands what was found
    have htake : (expected.take (payloadSize u)).length = expected.length := by
      rw [length_take]
      omega
    rw [getElem_append_right (by omega), getElem_drop, getElem_bytes, htake,
      Nat.add_sub_cancel' (by omega), mod_eq_of_lt (by omega)]

/-- A block that was handed out joins those that the program holds. -/
lemma Consistent.add (hcons : ∀ l ∈ rest, l.Good heap)
    (hsame : SameInside (rest.map Live.block) heap.mem heap'.mem)
    (halloc : Partition.Allocated heap' blocks (rest.map Live.block) size u)
    (hexp : ∀ (i : Nat) (hi : i < expected.length), i < payloadSize u →
      heap'.mem (u.start + headerSize + i) = expected[i]) :
    Consistent heap' (record heap' (u.start + headerSize) size expected :: rest) := by
  have hu : IsBlock u := halloc.partition.isBlock u mem_cons_self
  refine ⟨⟨blocks, ?_⟩, forall_mem_cons.mpr ⟨?_, fun l hl => ?_⟩⟩
  · rw [map_cons, record_block hu halloc.header]
    exact halloc.partition
  · exact record_good hu halloc.header halloc.large hexp
  · exact (hcons l hl).frame (halloc.partition.isBlock _ (mem_cons_of_mem _ (mem_map_of_mem hl)))
      hsame (mem_map_of_mem hl)

/-! ## The calls -/

/-- Blocks apart from each other have different pointers. -/
lemma ptr_ne_of_apart {m : Live} (hl : IsBlock l.block) (hm : IsBlock m.block)
    (hapart : l.block.Apart m.block) : m.ptr ≠ l.ptr := by
  intro hptr
  have hstart : l.block.start = m.block.start := congrArg (fun p => p - headerSize) hptr.symm
  have hllong := hl.start_lt_stop
  have hmlong := hm.start_lt_stop
  unfold Apart at hapart
  omega

/-- A byte of a block is written. -/
lemma Consistent.write {off : Nat} {byte : UInt8}
    (hcons : Consistent heap (l :: rest)) (hoff : off < l.contents.length) :
    Consistent { heap with mem := update heap.mem (l.ptr + off) byte }
      ({ l with contents := l.contents.set off byte } :: rest) := by
  obtain ⟨blocks, hpart⟩ := hcons.partition
  have hgood := hcons.good l mem_cons_self
  have hhigh := hgood.high
  have hl : IsBlock l.block := hpart.isBlock _ mem_cons_self
  have hsame : SameOutside [l.block] heap.mem (update heap.mem (l.ptr + off) byte) := by
    intro x hx
    have hfar : x < l.ptr - headerSize ∨ l.ptr + l.contents.length ≤ x :=
      not_covered_singleton.mp hx
    exact update_of_ne (by omega) _ _
  have hblock : ({ l with contents := l.contents.set off byte } : Live).block = l.block := by
    unfold Live.block
    rw [length_set]
  obtain ⟨hapart, -⟩ := pairwise_cons.mp hpart.apart
  refine ⟨⟨blocks, ?_⟩, forall_mem_cons.mpr ⟨⟨hhigh, ?_, ?_, ?_⟩, fun m hm => ?_⟩⟩
  · rw [map_cons, hblock]
    exact hpart.withMem (hsame.inside_one fun b hb => (hpart.apartFree _ mem_cons_self b hb).symm)
  · rw [length_set]
    exact hgood.large
  · rw [hblock, ← hgood.header]
    refine headerAt_congr hl.header_le fun x hx => update_of_ne ?_ _ _
    have hlt : x < l.block.start + headerSize := hx.2
    rw [Live.payload_start hhigh] at hlt
    omega
  · intro i hi
    show update heap.mem (l.ptr + off) byte (l.ptr + i) = (l.contents.set off byte)[i]
    rw [getElem_set]
    by_cases hi' : off = i
    · rw [if_pos hi', hi', update_self]
    · rw [if_neg hi', update_of_ne (by omega)]
      exact hgood.contents i _
  · exact (hcons.good m (mem_cons_of_mem _ hm)).frame
      (hpart.isBlock _ (mem_cons_of_mem _ (mem_map_of_mem hm)))
      (hsame.inside_one fun w hw => (hapart w hw).symm) (mem_map_of_mem hm)

namespace State

/-- All calls have returned, and the blocks of the program are those in use. -/
structure Sound (s : State) : Prop where
  returned : s.hung = false
  consistent : Consistent s.heap s.live

variable {s : State}

/-- The block behind a pointer that the program holds. -/
lemma without_perm (hholds : s.Holds ptr) :
    ∃ l, l.ptr = ptr ∧ s.live.Perm (l :: s.without ptr) ∧ s.contentsAt ptr = l.contents := by
  obtain ⟨m, hm, hptr⟩ := hholds
  obtain ⟨l, before, after, hbefore, hl, hlive, herase⟩ :=
    exists_of_eraseP (p := fun l : Live => decide (l.ptr = ptr)) hm (by simpa using hptr)
  have hfind : s.live.find? (fun l => l.ptr = ptr) = some l := by
    rw [hlive, find?_append, find?_eq_none.mpr (by simpa using hbefore),
      Option.none_or, find?_cons_of_pos (p := fun l : Live => decide (l.ptr = ptr)) hl]
  refine ⟨l, by simpa using hl, ?_, ?_⟩
  · unfold without
    rw [herase, hlive]
    exact perm_middle
  · unfold contentsAt
    rw [hfind]
    rfl

variable (hsound : s.Sound)

include hsound

lemma Sound.without_null : s.without 0 = s.live := by
  refine eraseP_of_forall_not fun l hl => ?_
  have hhigh : 0 < l.ptr :=
    (show 0 < headerSize by decide).trans_le (hsound.consistent.good l hl).high
  simpa using hhigh.ne'

lemma Sound.received {result : Option (Heap × Nat)} (hres : result = some (heap', ptr))
    (hsame : SameInside (s.live.map Live.block) s.heap.mem heap'.mem)
    (hcase : ptr = 0 ∧ Partition heap' blocks (s.live.map Live.block) ∨
      ∃ u, ptr = u.start + headerSize ∧
        Partition.Allocated heap' blocks (s.live.map Live.block) size u ∧
        ∀ (i : Nat) (hi : i < expected.length), i < payloadSize u →
          heap'.mem (u.start + headerSize + i) = expected[i]) :
    (s.received result size expected).Sound := by
  rw [hres]
  rcases hcase with ⟨rfl, hpart⟩ | ⟨u, rfl, halloc, hexp⟩
  · exact ⟨hsound.returned, hsound.consistent.frame hpart hsame⟩
  · exact ⟨hsound.returned, Consistent.add hsound.consistent.good hsame halloc hexp⟩

lemma Sound.malloc (hfits : s.Fits (.malloc answers size)) :
    (s.received (Libc.malloc s.heap answers size) size []).Sound := by
  obtain ⟨⟨-, hfresh⟩, hbelow⟩ := hfits
  obtain ⟨blocks, hpart⟩ := hsound.consistent.partition
  obtain ⟨heap', ptr, blocks', hmalloc, hsame, hcase⟩ := hpart.malloc_spec hfresh hbelow size
  refine hsound.received hmalloc hsame (hcase.imp id ?_)
  rintro ⟨u, hptr, halloc⟩
  exact ⟨u, hptr, halloc, fun i hi => absurd hi (not_lt_zero i)⟩

lemma Sound.calloc {nmemb : Nat} (hfits : s.Fits (.calloc answers nmemb size)) :
    (s.received (Libc.calloc s.heap answers nmemb size) (nmemb * size)
      (List.replicate (nmemb * size) 0)).Sound := by
  obtain ⟨⟨-, hfresh⟩, hbelow⟩ := hfits
  obtain ⟨blocks, hpart⟩ := hsound.consistent.partition
  obtain ⟨heap', ptr, blocks', hcalloc, hsame, hcase⟩ := hpart.calloc_spec hfresh hbelow nmemb size
  refine hsound.received hcalloc hsame (hcase.imp id ?_)
  rintro ⟨u, hptr, halloc, hzeros⟩
  refine ⟨u, hptr, halloc, fun i hi _ => ?_⟩
  rw [hzeros i (by rwa [length_replicate] at hi), getElem_replicate]

lemma Sound.free (hfits : s.Fits (.free ptr)) : (s.perform (.free ptr)).Sound := by
  obtain ⟨hlegal, -⟩ := hfits
  unfold perform
  rw [if_neg (by rw [hsound.returned]; decide)]
  dsimp only
  rcases hlegal with rfl | hholds
  · rw [hsound.without_null]
    exact hsound
  obtain ⟨l, rfl, hperm, -⟩ := without_perm hholds
  have hcons := hsound.consistent.perm hperm
  obtain ⟨blocks, hpart⟩ := hcons.partition
  have hgood := hcons.good l mem_cons_self
  obtain ⟨heap', blocks', hfree, hres, hsame⟩ := hpart.free_spec hgood.header
  rw [Live.payload_start hgood.high] at hfree
  rw [hfree]
  exact ⟨hsound.returned, ⟨blocks', hres⟩, fun m hm => (hcons.good m (mem_cons_of_mem _ hm)).frame
    (hres.isBlock _ (mem_map_of_mem hm)) hsame (mem_map_of_mem hm)⟩

lemma Sound.realloc (hfits : s.Fits (.realloc answers ptr size)) :
    (s.perform (.realloc answers ptr size)).Sound := by
  obtain ⟨⟨⟨-, hfresh⟩, hlegal⟩, hbelow⟩ := hfits
  unfold perform
  rw [if_neg (by rw [hsound.returned]; decide)]
  dsimp only
  rcases hlegal with rfl | hholds
  · -- without a block it is `malloc`
    obtain ⟨blocks, hpart⟩ := hsound.consistent.partition
    obtain ⟨heap', ptr, blocks', hmalloc, hsame, hcase⟩ := hpart.malloc_spec hfresh hbelow size
    rw [show Libc.realloc s.heap answers 0 size = Libc.malloc s.heap answers size from
      if_pos rfl, hmalloc]
    rw [hsound.without_null, ite_self]
    rcases hcase with ⟨rfl, hnull⟩ | ⟨u, rfl, halloc⟩
    · exact ⟨hsound.returned, hsound.consistent.frame hnull hsame⟩
    have hnop : s.contentsAt 0 = [] := by
      unfold contentsAt
      rw [find?_eq_none.mpr]
      · rfl
      · intro l hl
        have hhigh := (show 0 < headerSize by decide).trans_le (hsound.consistent.good l hl).high
        simpa using hhigh.ne'
    rw [hnop]
    exact ⟨hsound.returned, Consistent.add hsound.consistent.good hsame halloc
      fun i hi => absurd hi (not_lt_zero i)⟩
  · obtain ⟨l, rfl, hperm, hcont⟩ := without_perm hholds
    have hcons := hsound.consistent.perm hperm
    obtain ⟨blocks, hpart⟩ := hcons.partition
    have hgood := hcons.good l mem_cons_self
    have hrest : ∀ m ∈ s.without l.ptr, m.Good s.heap := fun m hm =>
      hcons.good m (mem_cons_of_mem _ hm)
    obtain ⟨heap', new, blocks', hrealloc, hsame, hcase⟩ :=
      hpart.realloc_spec hgood.header hfresh hbelow size
    rw [Live.payload_start hgood.high] at hrealloc
    rw [hrealloc]
    dsimp only
    rcases hcase with ⟨hzero, rfl, hfreed⟩ | ⟨hnz, rfl, hkept, hkeptSame⟩ | ⟨v, rfl, halloc, hbytes⟩
    · rw [if_pos hzero]
      exact ⟨hsound.returned, ⟨blocks', hfreed⟩, fun m hm => (hrest m hm).frame
        (hfreed.isBlock _ (mem_map_of_mem hm)) hsame (mem_map_of_mem hm)⟩
    · rw [if_neg hnz]
      refine ⟨hsound.returned, (hcons.frame hkept ?_).perm hperm.symm⟩
      exact forall_mem_cons.mpr ⟨hkeptSame _ (mem_singleton_self _), hsame⟩
    · have hv : IsBlock v := halloc.partition.isBlock v mem_cons_self
      rw [if_neg (Nat.add_pos_left hv.positive _).ne', hcont]
      refine ⟨hsound.returned, Consistent.add hrest hsame halloc fun i hi hiv => ?_⟩
      rw [hbytes i (by rwa [Live.payloadSize_block hgood.high]) hiv, Live.payload_start hgood.high]
      exact hgood.contents i hi

lemma Sound.write {off : Nat} {byte : UInt8}
    (hfits : s.Fits (.write ptr off byte)) : (s.perform (.write ptr off byte)).Sound := by
  obtain ⟨⟨m, hm, hptr, hoff⟩, -⟩ := hfits
  obtain ⟨l, rfl, hperm, -⟩ := without_perm ⟨m, hm, hptr⟩
  have hcons := hsound.consistent.perm hperm
  obtain ⟨blocks, hpart⟩ := hcons.partition
  have hl : IsBlock l.block := hpart.isBlock _ mem_cons_self
  have hothers : ∀ k ∈ s.without l.ptr, k.ptr ≠ l.ptr := fun k hk =>
    ptr_ne_of_apart hl (hpart.isBlock _ (mem_cons_of_mem _ (mem_map_of_mem hk)))
      ((pairwise_cons.mp hpart.apart).1 _ (mem_map_of_mem hk))
  -- the pointer tells the blocks apart
  have hml : m = l := (mem_cons.mp (hperm.mem_iff.mp hm)).resolve_right fun h => hothers m h hptr
  rw [hml] at hoff
  have hbelow : l.ptr + off < addressLimit := by
    have hstop : l.ptr + l.contents.length < addressLimit := hl.below
    omega
  unfold perform
  rw [if_neg (by rw [hsound.returned]; decide)]
  dsimp only
  rw [mod_eq_of_lt hbelow]
  refine ⟨hsound.returned, (hcons.write hoff).perm ?_⟩
  refine List.Perm.trans ?_ (hperm.map _).symm
  rw [map_cons, if_pos rfl]
  refine List.Perm.of_eq (congrArg _ ?_)
  refine ((map_congr_left fun k hk => ?_).trans (map_id _)).symm
  rw [if_neg (hothers k hk)]
  rfl

/-- One call keeps the promises. -/
lemma Sound.perform {call : Call} (hfits : s.Fits call) : (s.perform call).Sound := by
  have hrun : ∀ {t : State}, (if s.hung = true then s else t) = t := fun {t} =>
    if_neg (by rw [hsound.returned]; decide)
  cases call with
  | malloc answers size =>
    unfold State.perform
    rw [hrun]
    exact hsound.malloc hfits
  | calloc answers nmemb size =>
    unfold State.perform
    rw [hrun]
    exact hsound.calloc hfits
  | realloc answers ptr size => exact hsound.realloc hfits
  | free ptr => exact hsound.free hfits
  | write ptr off byte => exact hsound.write hfits

/-! ## The law -/

end State

/-- The free list, as the code walks along it. -/
lemma collectFree_spec {mem : ByteMemory} {fuel : Nat} (hblocks : ∀ b ∈ blocks, IsBlock b)
    (hchain : Chain mem blocks 0) (hfuel : blocks.length < fuel) :
    collectFree mem fuel (firstOf blocks 0) = some (blocks.map Interval.start) := by
  induction blocks generalizing fuel with
  | nil =>
    obtain ⟨fuel, rfl⟩ : ∃ n, fuel = n + 1 := exists_eq_add_one.mpr hfuel
    exact if_pos rfl
  | cons b rest ih =>
    obtain ⟨fuel, rfl⟩ : ∃ n, fuel = n + 1 := exists_eq_add_one.mpr ((zero_le _).trans_lt hfuel)
    obtain ⟨hhdr, hrest⟩ := hchain
    have hnext : (headerAt mem b.start).next = firstOf rest 0 := by
      rw [hhdr]
      rfl
    rw [collectFree, firstOf, if_neg (hblocks b mem_cons_self).positive.ne', hnext,
      ih (fun c hc => hblocks c (mem_cons_of_mem _ hc)) hrest (lt_of_succ_lt_succ hfuel)]
    rfl

lemma Listed.blockEnd_eq (hlist : Listed heap blocks) (hb : b ∈ blocks) :
    mallocBlockEnd heap.mem b.start = b.stop := by
  obtain ⟨front, rest, rfl⟩ := append_of_mem hb
  exact (hlist.isBlock b hb).blockEnd_eq (by rw [hlist.headerAt_eq]; rfl)

/-- When no block is in use, the free blocks are the runs of pages. -/
lemma Partition.isPageRun (hpart : Partition heap blocks []) (hb : b ∈ blocks) :
    IsPageRun heap.pages b.start b.stop := by
  have hcov : ∀ x, Owned heap.pages x ↔ Covered blocks x := fun x => by
    rw [← hpart.covered x, append_nil]
  have hlong := (hpart.listed.isBlock b hb).start_lt_stop
  refine ⟨hlong, fun x hle hlt => (hcov x).mpr ⟨b, hb, hle, hlt⟩, ?_, ?_⟩
  · rw [hcov]
    rintro ⟨c, hc, hle, hlt⟩
    rcases hpart.gapped.eq_or_lt hb hc with rfl | h | h
    · omega
    · omega
    · omega
  · intro x hx
    rw [hcov]
    rintro ⟨c, hc, hle, hlt⟩
    rcases hpart.gapped.eq_or_lt hb hc with rfl | h | h
    · omega
    · omega
    · omega

namespace State

variable {s : State}

/-- What is apart from a block is apart from its parts. -/
lemma bytes_apart {i : Interval} (hapart : l.block.Apart i) : l.bytes.Apart i := by
  rcases hapart with h | h
  · exact .inl h
  · exact .inr (h.trans (sub_le _ _))

lemma header_apart {i : Interval} (hb : IsBlock b) (hapart : i.Apart b) :
    i.Apart (headerBytes b.start) := by
  rcases hapart with h | h
  · exact .inl h
  · exact .inr (hb.header.trans h)

lemma blockOf_ptr (hblock : IsBlock l.block) (hhigh : headerSize ≤ l.ptr) :
    blockOf l.ptr = l.block.start := by
  rw [← Partition.blockOf_eq hblock, Live.payload_start hhigh]

/-- Two blocks of the program are the same one or apart. -/
lemma eq_or_apart (hpart : Partition heap blocks (live.map Live.block)) {m : Live}
    (hl : l ∈ live) (hm : m ∈ live) : l = m ∨ l.block.Apart m.block := by
  have hsymm : Std.Symm fun l m : Live => l = m ∨ l.block.Apart m.block :=
    ⟨fun _ _ h => h.imp Eq.symm Apart.symm⟩
  have hpair : live.Pairwise fun l m => l = m ∨ l.block.Apart m.block :=
    (pairwise_map.mp hpart.apart).imp fun h => .inr h
  exact hpair.forall_of_forall (fun _ _ => .inl rfl) hl hm

lemma Sound.lawWith (hsound : s.Sound) (hpart : Partition s.heap blocks (s.live.map Live.block)) :
    LawWith s (blocks.map Interval.start) := by
  have hgood := hsound.consistent.good
  have hlist := hpart.listed
  have hisBlock : ∀ l ∈ s.live, IsBlock l.block := fun l hl => hpart.isBlock _ (mem_map_of_mem hl)
  refine ⟨?_, ?_, fun l hl => (hgood l hl).large, ?_, ?_, ?_, ?_, ?_⟩
  · intro l hl
    rw [← Live.payload_start (hgood l hl).high]
    exact Nat.dvd_add (hisBlock l hl).startAligned (by decide)
  · exact fun l hl => (hisBlock l hl).below.le
  · intro l hl
    refine ext_getElem (bytes_length _ _ _) fun i hi hi' => ?_
    have hbelow : l.ptr + l.contents.length < addressLimit := (hisBlock l hl).below
    rw [getElem_bytes, Nat.mod_eq_of_lt (by omega)]
    exact (hgood l hl).contents i hi'
  · exact (pairwise_map.mp hpart.apart).imp fun h => bytes_apart (bytes_apart h.symm).symm
  · intro l hl header hhdr
    rcases mem_append.mp hhdr with hhdr | hhdr
    · obtain ⟨b, hb, rfl⟩ := mem_map.mp hhdr
      exact header_apart (hlist.isBlock b hb)
        (bytes_apart (hpart.apartFree _ (mem_map_of_mem hl) b hb))
    · obtain ⟨m, hm, rfl⟩ := mem_map.mp hhdr
      rw [blockOf_ptr (hisBlock m hm) (hgood m hm).high]
      rcases eq_or_apart hpart hl hm with rfl | hapart
      · exact .inr (Live.payload_start (hgood l hl).high).le
      · exact header_apart (hisBlock m hm) (bytes_apart hapart)
  · refine pairwise_map.mpr (hpart.gapped.imp_of_mem fun ha hb hgap => ?_)
    rw [hlist.blockEnd_eq ha]
    exact ⟨(hlist.isBlock _ ha).start_lt_stop.trans hgap, hgap⟩
  · intro hnone
    rw [hnone] at hpart
    refine ⟨fun a ha => ?_, fun page hpage => ?_⟩
    · obtain ⟨b, hb, rfl⟩ := mem_map.mp ha
      rw [hlist.blockEnd_eq hb]
      exact hpart.isPageRun hb
    · obtain ⟨b, hb, hle, hlt⟩ : Covered (blocks ++ []) page :=
        (hpart.covered page).mpr ⟨page, hpage, le_rfl, Nat.lt_add_of_pos_right (by decide)⟩
      rw [append_nil] at hb
      exact ⟨b.start, mem_map_of_mem hb, hle, by rwa [hlist.blockEnd_eq hb]⟩

lemma Sound.law (hsound : s.Sound) : s.Law := by
  obtain ⟨blocks, hpart⟩ := hsound.consistent.partition
  refine ⟨hsound.returned, blocks.map Interval.start, ?_, hsound.lawWith hpart⟩
  unfold Heap.freeBlocks
  rw [hpart.listed.head]
  exact collectFree_spec hpart.listed.isBlock hpart.listed.chain
    (hpart.listed.length_lt hpart.gapped)

lemma sound_start (mem : ByteMemory) : (start mem).Sound where
  returned := rfl
  consistent :=
    { partition := ⟨[],
        { listed :=
            { isBlock := fun _ hb => absurd hb not_mem_nil
              ordered := List.Pairwise.nil
              head := rfl
              chain := trivial }
          gapped := List.Pairwise.nil
          isBlock := fun _ hb => absurd hb not_mem_nil
          apart := List.Pairwise.nil
          apartFree := fun _ hb => absurd hb not_mem_nil
          covered := by simp [Covered, Owned, start]
          page := fun _ hp => absurd hp not_mem_nil }⟩
      good := fun _ hl => absurd hl not_mem_nil }

/-- In a run in which no page is the last one that has an address, every call returns;
every block is aligned, as large as it was asked for, apart from the others and from all
headers, and holds what the program left in it; the free list is sorted, without free
blocks that touch; and when the program holds no block, each free block is a whole run
of pages. -/
theorem run_law (mem : ByteMemory) {calls : List Call}
    (hfits : RunFits perform Fits (start mem) calls) :
    (run perform (start mem) calls).Law :=
  (run_preserves Sound (fun _ _ hsound hfit => hsound.perform hfit) (sound_start mem) hfits).law

/-- A run in which a block is cut, copied and given back. -/
def smallRun : List Call :=
  [.malloc [0x10000] 20, .calloc [] 3 5, .write 0x10020 19 7, .realloc [0x20000] 0x10020 4096,
    .realloc [0x20000, 0x21000] 0x10020 4096, .free 0x10060]

/-- The law holds after the small run. -/
theorem smallRun_law : RunFits perform Fits (start fun _ => 1) smallRun ∧
    (run perform (start fun _ => 1) smallRun).Law :=
  ⟨by decide +kernel, run_law (fun _ => 1) (by decide +kernel)⟩

/-- The last page of the address space. -/
def lastPage : Nat := addressLimit - pageSize

/-- The program gets the last page, and then none; it frees the block again. -/
def lastPageRun : List Call := [.malloc [lastPage, 0] 5000, .free (lastPage + headerSize)]

/-- The address behind the last page wraps to zero, and the answer that there is no page
passes for the next page of the run. The block reaches into a page that the program does
not have; when it is freed, two free blocks stand for one page. -/
theorem lastPage_two_blocks : RunFits perform Legal (start fun _ => 1) lastPageRun ∧
    ¬(run perform (start fun _ => 1) lastPageRun).Law := by
  refine ⟨by decide +kernel, ?_⟩
  rintro ⟨-, free, hfree, hlaw⟩
  have hlist : (run perform (start fun _ => 1) lastPageRun).heap.freeBlocks =
      some [944, lastPage] := by
    decide +kernel
  have hlive : (run perform (start fun _ => 1) lastPageRun).live = [] :=
    eq_nil_of_length_eq_zero (by decide +kernel)
  have hpages : (run perform (start fun _ => 1) lastPageRun).heap.pages = [lastPage] := by
    decide +kernel
  obtain rfl : [944, lastPage] = free := Option.some.inj (hlist.symm.trans hfree)
  have hrun := (hlaw.freed hlive).1 944 mem_cons_self
  obtain ⟨page, hpage, hle, -⟩ := hrun.owned 944 le_rfl hrun.nonempty
  rw [hpages, mem_singleton] at hpage
  rw [hpage] at hle
  exact absurd hle (by decide)

end State

end NexOS.Libc
