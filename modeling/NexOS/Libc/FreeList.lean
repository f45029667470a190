import NexOS.Libc.Malloc

/-! # The list of free blocks

A block is the interval of its header and its payload. The free list is a chain of such
intervals through the headers; inserting a block puts its interval into the sorted list
and joins it with the neighbours that it touches.
-/

namespace NexOS.Libc

open List Nat ByteMemory NexOS.Interval

/-! ## Headers -/

section Headers

variable {mem mem' : ByteMemory} {block : Nat}

/-- The bytes of a block's header. -/
def headerBytes (block : Nat) : Interval := ⟨block, block + headerSize⟩

variable (hblock : block + headerSize ≤ addressLimit)

include hblock

lemma headerAt_congr (hsame : ∀ x, (headerBytes block).Has x → mem' x = mem x) :
    headerAt mem' block = headerAt mem block := by
  have hload : ∀ off, off + 8 ≤ headerSize → mem'.load (block + off) = mem.load (block + off) := by
    intro off hoff
    refine load_congr fun i hi => ?_
    rw [mod_eq_of_lt (by omega)]
    refine hsame _ ⟨?_, ?_⟩
    · exact (le_add_right block off).trans (le_add_right _ i)
    · show block + off + i < block + headerSize
      omega
  simp only [headerAt, Header.mk.injEq]
  exact ⟨hload 0 (by decide), hload 8 (by decide), hload 16 (by decide), hload 24 (by decide)⟩

/-- A store to a field of a header. -/
lemma sameOutside_store {off : Nat} (hoff : off + 8 ≤ headerSize) (value : Nat) :
    SameOutside [headerBytes block] mem (mem.store (block + off) value) := by
  intro x hx
  have hfar : x < block ∨ block + headerSize ≤ x := not_covered_singleton.mp hx
  exact store_of_outside (by omega) value (by omega)

lemma sameOutside_setSize (value : Nat) :
    SameOutside [headerBytes block] mem (setSize mem block value) :=
  @sameOutside_store mem block hblock 0 (by decide) value

lemma sameOutside_setNext (value : Nat) :
    SameOutside [headerBytes block] mem (setNext mem block value) :=
  sameOutside_store hblock (by decide) value

lemma sameOutside_setMagic (value : Nat) :
    SameOutside [headerBytes block] mem (setMagic mem block value) :=
  sameOutside_store hblock (by decide) value

lemma sameOutside_setReserved (value : Nat) :
    SameOutside [headerBytes block] mem (setReserved mem block value) :=
  sameOutside_store hblock (by decide) value

lemma load_store_field (value : Nat) {field other : Nat} (hfield : field < 4) (hother : other < 4) :
    (mem.store (block + 8 * field) value).load (block + 8 * other) =
      if other = field then value % addressLimit else mem.load (block + 8 * other) := by
  unfold headerSize at hblock
  split
  next hsame => rw [hsame, load_store mem (by omega) value]
  · exact load_store_of_apart (by omega) value (by omega) (by omega)

/-- A header after a store to one of its fields. -/
lemma headerAt_store (value : Nat) {field : Nat} (hfield : field < 4) :
    headerAt (mem.store (block + 8 * field) value) block =
      ⟨if 0 = field then value % addressLimit else (headerAt mem block).size,
        if 1 = field then value % addressLimit else (headerAt mem block).next,
        if 2 = field then value % addressLimit else (headerAt mem block).magic,
        if 3 = field then value % addressLimit else (headerAt mem block).reserved⟩ := by
  have hload := @load_store_field mem block hblock value field
  simp only [headerAt, Header.mk.injEq]
  exact ⟨@hload 0 hfield (by decide), @hload 1 hfield (by decide), @hload 2 hfield (by decide),
    @hload 3 hfield (by decide)⟩

lemma headerAt_setSize (value : Nat) : headerAt (setSize mem block value) block =
    { headerAt mem block with size := value % addressLimit } := by
  simpa [setSize] using headerAt_store hblock value (show 0 < 4 by decide)

lemma headerAt_setNext (value : Nat) : headerAt (setNext mem block value) block =
    { headerAt mem block with next := value % addressLimit } := by
  simpa [setNext] using headerAt_store hblock value (show 1 < 4 by decide)

lemma headerAt_setMagic (value : Nat) : headerAt (setMagic mem block value) block =
    { headerAt mem block with magic := value % addressLimit } := by
  simpa [setMagic] using headerAt_store hblock value (show 2 < 4 by decide)

lemma headerAt_setReserved (value : Nat) : headerAt (setReserved mem block value) block =
    { headerAt mem block with reserved := value % addressLimit } := by
  simpa [setReserved] using headerAt_store hblock value (show 3 < 4 by decide)

lemma headerAt_freeHeader (size next : Nat) : headerAt (freeHeader mem block size next) block =
      ⟨size % addressLimit, next % addressLimit, mallocMagicFree, 0⟩ := by
  unfold freeHeader
  rw [headerAt_setReserved hblock, headerAt_setMagic hblock, headerAt_setNext hblock,
    headerAt_setSize hblock]
  rfl

lemma sameOutside_freeHeader (size next : Nat) :
    SameOutside [headerBytes block] mem (freeHeader mem block size next) :=
  (((sameOutside_setSize hblock size).trans (sameOutside_setNext hblock next)).trans
    (sameOutside_setMagic hblock _)).trans (sameOutside_setReserved hblock 0)

end Headers

/-! ## Blocks -/

/-- The bytes of a block without its header. -/
def payloadSize (b : Interval) : Nat := b.stop - b.start - headerSize

/-- An interval that can be a block. -/
structure IsBlock (b : Interval) : Prop where
  startAligned : mallocAlign ∣ b.start
  stopAligned : mallocAlign ∣ b.stop
  positive : 0 < b.start
  header : b.start + headerSize ≤ b.stop
  below : b.stop < addressLimit

namespace IsBlock

variable {b c : Interval} {mem mem' : ByteMemory} (hb : IsBlock b)

include hb

lemma header_le : b.start + headerSize ≤ addressLimit := hb.header.trans hb.below.le

lemma start_lt_stop : b.start < b.stop := (Nat.lt_add_of_pos_right (by decide)).trans_le hb.header

lemma start_lt : b.start < addressLimit := hb.start_lt_stop.trans hb.below

lemma has_of_header {x : Nat} (hx : (headerBytes b.start).Has x) : b.Has x :=
  ⟨hx.1, hx.2.trans_le hb.header⟩

/-- The header of a block that keeps its bytes. -/
lemma headerAt_eq {kept : List Interval} (hsame : SameInside kept mem mem')
    (hkept : b ∈ kept) : headerAt mem' b.start = headerAt mem b.start :=
  headerAt_congr hb.header_le fun x hx => hsame b hkept x (hb.has_of_header hx)

lemma sameOutside (hsame : SameOutside [headerBytes b.start] mem mem') :
    SameOutside [b] mem mem' := by
  refine hsame.mono fun x hx => ?_
  rw [covered_singleton] at hx ⊢
  exact hb.has_of_header hx

lemma join (hc : IsBlock c) (htouch : b.stop = c.start) : IsBlock (b.join c) where
  startAligned := hb.startAligned
  stopAligned := hc.stopAligned
  positive := hb.positive
  header := by
    have hlong := hc.start_lt_stop
    have hhdr := hb.header
    show b.start + headerSize ≤ c.stop
    omega
  below := hc.below

lemma blockPayload_eq : mallocBlockPayload b.start = b.start + headerSize :=
  mod_eq_of_lt (hb.header.trans_lt hb.below)

lemma stop_eq : b.start + headerSize + payloadSize b = b.stop := by
  have hhdr := hb.header
  unfold payloadSize
  omega

lemma payload_lt : payloadSize b < addressLimit := by
  have hstop := hb.stop_eq
  have hbelow := hb.below
  omega

lemma blockEnd_eq (hsize : (headerAt mem b.start).size = payloadSize b) :
    mallocBlockEnd mem b.start = b.stop := by
  unfold mallocBlockEnd
  rw [hb.blockPayload_eq, hsize, hb.stop_eq, mod_eq_of_lt hb.below]

end IsBlock

/-! ## Chains -/

/-- The start of the first block, or of what follows. -/
def firstOf : List Interval → Nat → Nat
  | [], last => last
  | b :: _, _ => b.start

/-- The start of the last block, or of what was before. -/
def lastOf : Nat → List Interval → Nat
  | prev, [] => prev
  | _, b :: rest => lastOf b.start rest

lemma firstOf_append (front back : List Interval) (last : Nat) :
    firstOf (front ++ back) last = firstOf front (firstOf back last) := by
  cases front with
  | nil => rfl
  | cons b rest => rfl

lemma lastOf_concat (prev : Nat) (front : List Interval) (b : Interval) :
    lastOf prev (front ++ [b]) = b.start := by
  induction front generalizing prev with
  | nil => rfl
  | cons c rest ih => exact ih c.start

variable {blocks : List Interval} {last : Nat}

lemma firstOf_lt (hblocks : ∀ b ∈ blocks, IsBlock b)
    (hlast : last < addressLimit) : firstOf blocks last < addressLimit := by
  cases blocks with
  | nil => exact hlast
  | cons b rest => exact (hblocks b mem_cons_self).start_lt

/-- The header of a free block. -/
def freeFields (b : Interval) (next : Nat) : Header := ⟨payloadSize b, next, mallocMagicFree, 0⟩

/-- The headers of the blocks lead from each to the next, and from the last one to `last`. -/
def Chain (mem : ByteMemory) : List Interval → Nat → Prop
  | [], _ => True
  | b :: rest, last => headerAt mem b.start = freeFields b (firstOf rest last) ∧ Chain mem rest last

variable {mem mem' : ByteMemory} {heap : Heap}
  {front rest after before : List Interval} {b : Interval}

lemma chain_append {back : List Interval} :
    Chain mem (front ++ back) last ↔ Chain mem front (firstOf back last) ∧ Chain mem back last := by
  induction front with
  | nil => exact (true_and _).symm.to_iff
  | cons b rest ih =>
    rw [cons_append, Chain, Chain, ih, firstOf_append, and_assoc]

/-- Blocks that keep their bytes stay a chain. -/
lemma Chain.frame (hchain : Chain mem blocks last)
    (hblocks : ∀ b ∈ blocks, IsBlock b) (hsame : SameInside blocks mem mem') :
    Chain mem' blocks last := by
  induction blocks with
  | nil => trivial
  | cons b rest ih =>
    obtain ⟨hhdr, hrest⟩ := hchain
    refine ⟨?_, ih hrest (fun c hc => hblocks c (mem_cons_of_mem _ hc))
      fun c hc => hsame c (mem_cons_of_mem _ hc)⟩
    rw [(hblocks b mem_cons_self).headerAt_eq hsame mem_cons_self, hhdr]

/-- The blocks are the free list of the heap, from the lowest address on. -/
structure Listed (heap : Heap) (blocks : List Interval) : Prop where
  isBlock : ∀ b ∈ blocks, IsBlock b
  ordered : Ordered blocks
  head : heap.freeList = firstOf blocks 0
  chain : Chain heap.mem blocks 0

/-- The list of another heap with the same head and the same bytes in the free blocks. -/
lemma Listed.frame {heap' : Heap} (hlist : Listed heap blocks)
    (hhead : heap'.freeList = heap.freeList) (hsame : SameInside blocks heap.mem heap'.mem) :
    Listed heap' blocks :=
  { hlist with
    head := hhead.trans hlist.head
    chain := hlist.chain.frame hlist.isBlock hsame }

/-- The front of a list whose last block gets another successor. -/
lemma relink_spec {old target : Nat} (hfront : ∀ b ∈ front, IsBlock b)
    (hord : Ordered front) (hhead : heap.freeList = firstOf front old)
    (hchain : Chain heap.mem front old) (htgt : target < addressLimit) :
    (relink heap (lastOf 0 front) target).freeList = firstOf front target ∧
      Chain (relink heap (lastOf 0 front) target).mem front target ∧
      SameOutside front heap.mem (relink heap (lastOf 0 front) target).mem ∧
      (relink heap (lastOf 0 front) target).pages = heap.pages := by
  rcases eq_nil_or_concat front with rfl | ⟨init, b, rfl⟩
  · exact ⟨rfl, trivial, SameOutside.refl _ _, rfl⟩
  rw [concat_eq_append] at *
  obtain ⟨-, -, hinit⟩ := pairwise_append.mp hord
  obtain ⟨hbefore, hhdr, -⟩ := chain_append.mp hchain
  have hb : IsBlock b := hfront b (by simp)
  have hpos := hb.positive
  have hsame : SameOutside [b] heap.mem (setNext heap.mem b.start target) :=
    hb.sameOutside (sameOutside_setNext hb.header_le target)
  rw [lastOf_concat, relink, if_pos (by omega)]
  refine ⟨?_, chain_append.mpr ⟨?_, ?_, trivial⟩, ?_, rfl⟩
  · rw [hhead, firstOf_append, firstOf_append]
    rfl
  · exact hbefore.frame (fun a ha => hfront a (mem_append_left _ ha))
      (hsame.inside_one fun a ha => .inl (hinit a ha b (mem_singleton_self b)))
  · rw [headerAt_setNext hb.header_le, hhdr, mod_eq_of_lt htgt]
    rfl
  · refine hsame.mono ?_
    rintro x ⟨j, hj, hx⟩
    exact ⟨j, mem_append_right _ hj, hx⟩

/-- A block that takes in the one behind it. -/
lemma absorb_spec {a : Interval}
    (hlist : Listed heap (front ++ a :: b :: rest)) (htouch : a.stop = b.start) :
    Listed { heap with mem := absorb heap.mem a.start b.start } (front ++ a.join b :: rest) ∧
      SameOutside [a] heap.mem (absorb heap.mem a.start b.start) := by
  have ha : IsBlock a := hlist.isBlock a (by simp)
  have hb : IsBlock b := hlist.isBlock b (by simp)
  obtain ⟨hfrontOrdered, hback, hcross⟩ := pairwise_append.mp hlist.ordered
  obtain ⟨haAfter, hbRest⟩ := pairwise_cons.mp hback
  obtain ⟨hbAfter, hrestOrdered⟩ := pairwise_cons.mp hbRest
  obtain ⟨hfrontChain, haHeader, hbHeader, hrestChain⟩ := chain_append.mp hlist.chain
  have haLe := ha.header
  have hbLe := hb.header
  have hbBelow := hb.below
  have hgrown : SameOutside [a] heap.mem (setSize heap.mem a.start
      ((headerAt heap.mem a.start).size + (headerSize + (headerAt heap.mem b.start).size))) :=
    ha.sameOutside (sameOutside_setSize ha.header_le _)
  have hbSame := hgrown.inside_one (forall_mem_singleton.mpr (.inr htouch.le))
  have hsame : SameOutside [a] heap.mem (absorb heap.mem a.start b.start) :=
    hgrown.trans (ha.sameOutside (sameOutside_setNext ha.header_le _))
  have hfrontBlocks : ∀ c ∈ front, IsBlock c := fun c hc => hlist.isBlock c (by simp [hc])
  have hrestBlocks : ∀ c ∈ rest, IsBlock c := fun c hc => hlist.isBlock c (by simp [hc])
  refine ⟨⟨?_, ?_, ?_, ?_⟩, hsame⟩
  · intro c hc
    rcases mem_append.mp hc with hc | hc
    · exact hfrontBlocks c hc
    · rcases mem_cons.mp hc with rfl | hc
      · exact ha.join hb htouch
      · exact hrestBlocks c hc
  · refine pairwise_append.mpr ⟨hfrontOrdered, pairwise_cons.mpr ⟨hbAfter, hrestOrdered⟩, ?_⟩
    intro c hc d hd
    rcases mem_cons.mp hd with rfl | hd
    · exact hcross c hc a (by simp)
    · exact hcross c hc d (by simp [hd])
  · rw [hlist.head, firstOf_append, firstOf_append]
    rfl
  · refine chain_append.mpr ⟨?_, ?_, ?_⟩
    · exact hfrontChain.frame hfrontBlocks
        (hsame.inside_one fun c hc => .inl (hcross c hc a (by simp)))
    · -- the size of the joined block is the sum of both and of the header between them
      have hnext : firstOf rest 0 < addressLimit := firstOf_lt hrestBlocks (by decide)
      unfold absorb
      rw [show (a.join b).start = a.start from rfl, headerAt_setNext ha.header_le,
        headerAt_setSize ha.header_le,
        hb.headerAt_eq hbSame (mem_singleton_self b), haHeader, hbHeader]
      unfold freeFields payloadSize Interval.join
      dsimp only
      rw [mod_eq_of_lt hnext, mod_eq_of_lt (by omega)]
      congr 1
      omega
    · exact hrestChain.frame hrestBlocks
        (hsame.inside_one fun c hc => .inr (haAfter c (mem_cons_of_mem _ hc)))

/-- The header of a block of the list. -/
lemma Listed.headerAt_eq (hlist : Listed heap (front ++ b :: rest)) :
    headerAt heap.mem b.start = freeFields b (firstOf rest 0) :=
  (chain_append.mp hlist.chain).2.1

lemma joinNext_spec {c : Interval} (hlist : Listed heap (front ++ c :: after)) :
    Listed (joinNext heap c.start) (front ++ c.joinNext after) ∧
      SameOutside [c] heap.mem (joinNext heap c.start).mem ∧
      (joinNext heap c.start).pages = heap.pages := by
  have hc : IsBlock c := hlist.isBlock c (by simp)
  have hend : mallocBlockEnd heap.mem c.start = c.stop :=
    hc.blockEnd_eq (by rw [hlist.headerAt_eq]; rfl)
  have hnext : (headerAt heap.mem c.start).next = firstOf after 0 := by
    rw [hlist.headerAt_eq]
    rfl
  unfold joinNext
  rw [hend, hnext]
  cases after with
  | nil =>
    exact ⟨hlist, SameOutside.refl _ _, rfl⟩
  | cons a rest =>
    have ha : IsBlock a := hlist.isBlock a (by simp)
    have hpos : firstOf (a :: rest) 0 ≠ 0 := ha.positive.ne'
    rw [joinNext_cons]
    by_cases htouch : c.stop = a.start
    · rw [if_pos ⟨hpos, htouch⟩, if_pos htouch]
      obtain ⟨hjoin, hsame⟩ := absorb_spec hlist htouch
      exact ⟨hjoin, hsame, rfl⟩
    · rw [if_neg (fun h => htouch h.2), if_neg htouch]
      exact ⟨hlist, SameOutside.refl _ _, rfl⟩

lemma joinPrev_spec (hlist : Listed heap (before ++ b :: after)) :
    ∃ joined front c, joinPrev heap (lastOf 0 before) b.start = (joined, c.start) ∧
      Listed joined (front ++ c :: after) ∧ SameOutside before heap.mem joined.mem ∧
      joined.pages = heap.pages ∧ insertBetween before b after = front ++ c.joinNext after ∧
      ∀ x, c.Has x → Covered (b :: before) x := by
  rcases eq_nil_or_concat before with rfl | ⟨init, last, rfl⟩
  · exact ⟨heap, [], b, if_neg (by simp [lastOf]), hlist, SameOutside.refl _ _, rfl, rfl,
      fun x hx => covered_cons.mpr (.inl hx)⟩
  rw [concat_eq_append] at *
  rw [append_assoc] at hlist
  have hlast : IsBlock last := hlist.isBlock last (by simp)
  have hb : IsBlock b := hlist.isBlock b (by simp)
  have hend : mallocBlockEnd heap.mem last.start = last.stop :=
    hlast.blockEnd_eq (by rw [hlist.headerAt_eq]; rfl)
  unfold joinPrev
  rw [lastOf_concat, hend, insertBetween_concat]
  by_cases htouch : last.stop = b.start
  · obtain ⟨hjoin, hsame⟩ := absorb_spec hlist htouch
    rw [if_pos ⟨hlast.positive.ne', htouch⟩, if_pos htouch]
    refine ⟨_, init, last.join b, rfl, hjoin, hsame.mono ?_, rfl, rfl, fun x hx => ?_⟩
    · rintro x ⟨j, hj, hx⟩
      exact ⟨j, mem_append_right _ hj, hx⟩
    · rcases (has_join hlast.start_lt_stop.le hb.start_lt_stop.le htouch x).mp hx with hx | hx
      · exact covered_cons.mpr (.inr ⟨last, by simp, hx⟩)
      · exact covered_cons.mpr (.inl hx)
  · rw [if_neg (fun h => htouch h.2), if_neg htouch]
    refine ⟨heap, init ++ [last], b, rfl, ?_, SameOutside.refl _ _, rfl, rfl,
      fun x hx => covered_cons.mpr (.inl hx)⟩
    rwa [append_assoc]

/-! ## Insertion -/

/-- The walk ends between the blocks before an address and those behind it. -/
lemma insertPlace_spec {block fuel : Nat} (prev : Nat)
    (hblocks : ∀ b ∈ blocks, IsBlock b) (hchain : Chain mem blocks 0)
    (hfuel : blocks.length < fuel) :
    insertPlace mem block fuel prev (firstOf blocks 0) =
      some (lastOf prev (blocks.takeWhile fun b => b.start < block),
        firstOf (blocks.dropWhile fun b => b.start < block) 0) := by
  induction blocks generalizing prev fuel with
  | nil =>
    obtain ⟨fuel, rfl⟩ : ∃ n, fuel = n + 1 := exists_eq_add_one.mpr hfuel
    rfl
  | cons b rest ih =>
    obtain ⟨fuel, rfl⟩ : ∃ n, fuel = n + 1 := exists_eq_add_one.mpr ((zero_le _).trans_lt hfuel)
    obtain ⟨hhdr, hrest⟩ := hchain
    have hpos : b.start ≠ 0 := (hblocks b mem_cons_self).positive.ne'
    rw [insertPlace, firstOf]
    by_cases hbefore : b.start < block
    · rw [if_pos ⟨hpos, hbefore⟩, hhdr, takeWhile_cons_of_pos (by simpa using hbefore),
        dropWhile_cons_of_pos (by simpa using hbefore)]
      exact ih b.start (fun c hc => hblocks c (mem_cons_of_mem _ hc)) hrest
        (lt_of_succ_lt_succ hfuel)
    · rw [if_neg (fun h => hbefore h.2), takeWhile_cons_of_neg (by simpa using hbefore),
        dropWhile_cons_of_neg (by simpa using hbefore)]
      rfl

/-- A free list is shorter than the loops that walk along it can be. -/
lemma Listed.length_lt (hlist : Listed heap blocks)
    (hgap : Gapped blocks) : blocks.length < addressLimit := by
  have hlen := @length_le_of_gapped blocks 1 addressLimit hgap
    (fun b hb => (hlist.isBlock b hb).start_lt_stop) (fun b hb => (hlist.isBlock b hb).positive)
    (fun b hb => (hlist.isBlock b hb).below.le) (by decide)
  omega

/-- A block with its header is put between the front and the rest of a list. -/
lemma link_spec {old : Nat}
    (hblocks : ∀ a ∈ before ++ b :: after, IsBlock a) (hord : Ordered (before ++ b :: after))
    (hhead : heap.freeList = firstOf before old) (hbefore : Chain heap.mem before old)
    (hhdr : headerAt heap.mem b.start = freeFields b (firstOf after 0))
    (hafter : Chain heap.mem after 0) :
    Listed (relink heap (lastOf 0 before) b.start) (before ++ b :: after) ∧
      SameOutside before heap.mem (relink heap (lastOf 0 before) b.start).mem ∧
      (relink heap (lastOf 0 before) b.start).pages = heap.pages := by
  have hb : IsBlock b := hblocks b (by simp)
  obtain ⟨hfront, hback, hcross⟩ := pairwise_append.mp hord
  obtain ⟨hfirst, hchain, hsame, hpages⟩ :=
    relink_spec (fun a ha => hblocks a (by simp [ha])) hfront
    hhead hbefore hb.start_lt
  have hkept : SameInside (b :: after) heap.mem (relink heap (lastOf 0 before) b.start).mem :=
    hsame.inside fun a ha j hj => .inr (hcross j hj a ha)
  refine ⟨⟨hblocks, hord, ?_, chain_append.mpr ⟨hchain, ?_, ?_⟩⟩, hsame, hpages⟩
  · rw [hfirst, firstOf_append]
    rfl
  · rw [hb.headerAt_eq hkept mem_cons_self, hhdr]
  · exact hafter.frame (fun a ha => hblocks a (by simp [ha]))
      fun a ha => hkept a (mem_cons_of_mem _ ha)

/-- The rest of an insertion once the place is found. -/
lemma insertBetween_spec
    (hblocks : ∀ a ∈ before ++ b :: after, IsBlock a) (hord : Ordered (before ++ b :: after))
    (hhead : heap.freeList = firstOf (before ++ after) 0)
    (hchain : Chain heap.mem (before ++ after) 0)
    (hhdr : headerAt heap.mem b.start = freeFields b (firstOf after 0)) :
    ∃ joined c,
      joinPrev (relink heap (lastOf 0 before) b.start) (lastOf 0 before) b.start = (joined, c) ∧
      Listed (joinNext joined c) (insertBetween before b after) ∧
      SameOutside (b :: before) heap.mem (joinNext joined c).mem ∧
      (joinNext joined c).pages = heap.pages := by
  rw [firstOf_append] at hhead
  obtain ⟨hbefore, hafter⟩ := chain_append.mp hchain
  obtain ⟨hlinked, hlinkSame, hlinkPages⟩ := link_spec hblocks hord hhead hbefore hhdr hafter
  obtain ⟨joined, front, c, hjoin, hjoined, hjoinSame, hjoinPages, hres, hins⟩ :=
    joinPrev_spec hlinked
  obtain ⟨hlast, hlastSame, hlastPages⟩ := joinNext_spec hjoined
  have hmore : ∀ x, Covered before x → Covered (b :: before) x :=
    fun x hx => covered_cons.mpr (.inr hx)
  refine ⟨joined, c.start, hjoin, ?_, ?_, (hlastPages.trans hjoinPages).trans hlinkPages⟩
  · rwa [hres]
  exact ((hlinkSame.trans hjoinSame).mono hmore).trans
    (hlastSame.mono fun x hx => hins x (covered_singleton.mp hx))

/-- A block apart from the free list gets its place in it. -/
lemma mallocInsertFreeBlock_spec
    (hlist : Listed heap blocks) (hgap : Gapped blocks) (hb : IsBlock b)
    (hapart : ∀ a ∈ blocks, a.Apart b)
    (hsize : (headerAt heap.mem b.start).size = payloadSize b) :
    ∃ heap', mallocInsertFreeBlock heap b.start = some heap' ∧ Listed heap' (insert blocks b) ∧
      Gapped (insert blocks b) ∧ SameOutside (b :: blocks) heap.mem heap'.mem ∧
      heap'.pages = heap.pages := by
  have hall : ∀ a ∈ b :: blocks, IsBlock a := forall_mem_cons.mpr ⟨hb, hlist.isBlock⟩
  have hlong : ∀ a ∈ b :: blocks, a.start < a.stop := fun a ha => (hall a ha).start_lt_stop
  have hsplit : blocks.takeWhile (fun a => a.start < b.start) ++
    blocks.dropWhile (fun a => a.start < b.start) = blocks := takeWhile_append_dropWhile
  have hblocks := fun a ha => hall a (mem_cons.mpr (@mem_between a blocks b |>.mp ha))
  have hafterLt : firstOf (blocks.dropWhile fun a => a.start < b.start) 0 < addressLimit :=
    firstOf_lt (fun a ha => hlist.isBlock a ((dropWhile_sublist _).subset ha)) (by decide)
  -- the header is marked free before the walk, and its link is set after it
  obtain ⟨marked, hmarkedEq⟩ :
      ∃ mem, setReserved (setMagic heap.mem b.start mallocMagicFree) b.start 0 = mem := ⟨_, rfl⟩
  have hmark : SameOutside [b] heap.mem marked := by
    rw [← hmarkedEq]
    exact hb.sameOutside
      ((sameOutside_setMagic hb.header_le _).trans (sameOutside_setReserved hb.header_le 0))
  have hplace : insertPlace marked b.start addressLimit 0 heap.freeList =
      some (lastOf 0 (blocks.takeWhile fun a => a.start < b.start),
        firstOf (blocks.dropWhile fun a => a.start < b.start) 0) := by
    rw [hlist.head]
    exact insertPlace_spec 0 hlist.isBlock
      (hlist.chain.frame hlist.isBlock (hmark.inside_one hapart)) (hlist.length_lt hgap)
  have hready := hmark.trans (hb.sameOutside (sameOutside_setNext hb.header_le
    (firstOf (blocks.dropWhile fun a => a.start < b.start) 0)))
  have hhdr : headerAt (setNext marked b.start
      (firstOf (blocks.dropWhile fun a => a.start < b.start) 0)) b.start =
        freeFields b (firstOf (blocks.dropWhile fun a => a.start < b.start) 0) := by
    rw [headerAt_setNext hb.header_le, ← hmarkedEq, headerAt_setReserved hb.header_le,
      headerAt_setMagic hb.header_le]
    dsimp only
    rw [hsize, mod_eq_of_lt hafterLt]
    rfl
  obtain ⟨joined, c, hjoin, hres, hsame, hpages⟩ := @insertBetween_spec { heap with
      mem :=
        setNext marked b.start (firstOf (blocks.dropWhile fun a => a.start < b.start) 0) } _ _ _
    hblocks (ordered_between hgap hapart hlong) (by rw [hsplit]; exact hlist.head)
    (by
      rw [hsplit]
      exact hlist.chain.frame hlist.isBlock (hready.inside_one hapart))
    hhdr
  refine ⟨joinNext joined c, ?_, hres, gapped_insert hgap hapart hlong, ?_, hpages⟩
  · unfold mallocInsertFreeBlock
    rw [if_neg hb.positive.ne']
    dsimp only
    rw [hmarkedEq, hplace]
    dsimp only
    rw [hjoin]
  · refine (hready.mono ?_).trans (hsame.mono ?_)
    · exact fun x hx => covered_cons.mpr (.inl (covered_singleton.mp hx))
    · intro x hx
      rw [covered_cons] at hx ⊢
      exact hx.imp_right fun ⟨j, hj, hx⟩ => ⟨j, (takeWhile_sublist _).subset hj, hx⟩

end NexOS.Libc
