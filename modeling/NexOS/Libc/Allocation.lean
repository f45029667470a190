import NexOS.Libc.Partition

/-! # Allocation and release

What `malloc`, `free` and `realloc` do with the blocks of a heap.
-/

namespace NexOS.Libc

open List ByteMemory NexOS.Interval

lemma sizeSub_eq {a b : Nat} (hle : b ≤ a) (ha : a < addressLimit) : sizeSub a b = a - b :=
  distance_eq hle ha

lemma mallocAlignUp_spec {size : Nat} (hsize : ¬sizeMax - (mallocAlign - 1) < size) :
    size ≤ mallocAlignUp size ∧ mallocAlign ∣ mallocAlignUp size := by
  have hlimit : sizeMax - (mallocAlign - 1) + (mallocAlign - 1) < addressLimit := by decide
  unfold mallocAlignUp
  rw [Nat.mod_eq_of_lt (by omega)]
  unfold mallocAlign
  omega

variable {heap : Heap} {mem : ByteMemory} {blocks used front rest : List Interval} {a : Interval}
  {size : Nat}

/-- The search stops at a block that is large enough. -/
lemma mallocFindFreeBlock_spec {fuel : Nat} (prev : Nat) (hblocks : ∀ b ∈ blocks, IsBlock b)
    (hchain : Chain mem blocks 0) (hfuel : blocks.length < fuel) :
    mallocFindFreeBlock mem size fuel prev (firstOf blocks 0) = some (0, 0) ∨
      ∃ front a rest, blocks = front ++ a :: rest ∧ size ≤ payloadSize a ∧
        mallocFindFreeBlock mem size fuel prev (firstOf blocks 0) =
          some (a.start, lastOf prev front) := by
  induction blocks generalizing prev fuel with
  | nil =>
    obtain ⟨fuel, rfl⟩ : ∃ n, fuel = n + 1 := Nat.exists_eq_add_one.mpr hfuel
    exact .inl (if_pos rfl)
  | cons b rest ih =>
    obtain ⟨fuel, rfl⟩ : ∃ n, fuel = n + 1 :=
      Nat.exists_eq_add_one.mpr ((Nat.zero_le _).trans_lt hfuel)
    obtain ⟨hhdr, hrest⟩ := hchain
    have hpos : b.start ≠ 0 := (hblocks b mem_cons_self).positive.ne'
    rw [mallocFindFreeBlock, firstOf, if_neg hpos, hhdr]
    by_cases hlarge : size ≤ (freeFields b (firstOf rest 0)).size
    · exact .inr ⟨[], b, rest, rfl, hlarge, if_pos hlarge⟩
    rw [if_neg hlarge]
    rcases ih b.start (fun c hc => hblocks c (mem_cons_of_mem _ hc)) hrest
      (Nat.lt_of_succ_lt_succ hfuel) with hnone | ⟨front, a, tail, hsplit, ha, hfind⟩
    · exact .inl hnone
    · exact .inr ⟨b :: front, a, tail, by rw [hsplit]; rfl, ha, hfind⟩

lemma findBlock_spec (hlist : Listed heap blocks) (hgap : Gapped blocks) (size : Nat) :
    findBlock heap size = some (0, 0) ∨
      ∃ front a rest, blocks = front ++ a :: rest ∧ size ≤ payloadSize a ∧
        findBlock heap size = some (a.start, lastOf 0 front) := by
  unfold findBlock
  rw [hlist.head]
  exact mallocFindFreeBlock_spec 0 hlist.isBlock hlist.chain (hlist.length_lt hgap)

/-! ## Taking a block -/

/-- What is left of a block in front of which `size` bytes are in use. -/
def remainder (a : Interval) (size : Nat) : Interval := ⟨a.start + headerSize + size, a.stop⟩

/-- The front of a block with `size` bytes. -/
def frontPart (a : Interval) (size : Nat) : Interval := ⟨a.start, a.start + headerSize + size⟩

/-- The test for a split does not wrap: a block neither begins nor ends at the end of
the addresses. -/
lemma IsBlock.add_split_lt (ha : IsBlock a) (hsize : size ≤ payloadSize a) :
    size + headerSize + mallocMinSplit < addressLimit := by
  obtain ⟨m, hm⟩ := ha.startAligned
  have hstop := ha.stop_eq
  have hbelow := ha.below
  have hpos := ha.positive
  unfold mallocAlign headerSize mallocMinSplit addressLimit at *
  omega

lemma payloadSize_frontPart (a : Interval) (size : Nat) :
    payloadSize (frontPart a size) = size := by
  unfold payloadSize frontPart
  dsimp only
  omega

section Split

variable (ha : IsBlock a) (halign : mallocAlign ∣ size)
  (hroom : size + headerSize + mallocMinSplit ≤ payloadSize a)

include ha hroom in
lemma split_le : a.start + headerSize + size + headerSize + mallocMinSplit ≤ a.stop := by
  have hhdr := ha.header
  unfold payloadSize at hroom
  omega

include ha halign hroom in
lemma isBlock_remainder : IsBlock (remainder a size) where
  startAligned := Nat.dvd_add (Nat.dvd_add ha.startAligned (by decide)) halign
  stopAligned := ha.stopAligned
  positive := Nat.add_pos_left (Nat.add_pos_left ha.positive _) _
  header := (Nat.le_add_right _ _).trans (split_le ha hroom)
  below := ha.below

include ha halign hroom in
lemma isBlock_frontPart : IsBlock (frontPart a size) where
  startAligned := ha.startAligned
  stopAligned := Nat.dvd_add (Nat.dvd_add ha.startAligned (by decide)) halign
  positive := ha.positive
  header := Nat.le_add_right _ _
  below := by
    have hle := split_le ha hroom
    have hbelow := ha.below
    show a.start + headerSize + size < addressLimit
    omega

include ha hroom in
lemma has_split (x : Nat) : a.Has x ↔ (frontPart a size).Has x ∨ (remainder a size).Has x := by
  have hle := split_le ha hroom
  unfold Has frontPart remainder
  dsimp only
  omega

include ha hroom in
lemma payloadSize_remainder :
    sizeSub (sizeSub (payloadSize a) size) headerSize = payloadSize (remainder a size) := by
  have hlimit := ha.payload_lt
  rw [sizeSub_eq (show size ≤ payloadSize a by omega) hlimit, sizeSub_eq (by omega) (by omega)]
  unfold payloadSize remainder
  dsimp only
  omega

include ha hroom in
lemma remainder_start :
    (mallocBlockPayload a.start + size) % addressLimit = (remainder a size).start := by
  have hle := split_le ha hroom
  have hbelow := ha.below
  rw [ha.blockPayload_eq]
  exact Nat.mod_eq_of_lt (by omega)

end Split

/-- The blocks after one of them was taken, and the part that was taken. -/
structure Taken (heap taken : Heap) (blocks : List Interval) (size : Nat) (u : Interval)
    (left : List Interval) : Prop where
  isBlock : IsBlock u
  large : size ≤ payloadSize u
  size : (headerAt taken.mem u.start).size = payloadSize u
  listed : Listed taken left
  gapped : Gapped left
  apart : ∀ b ∈ left, b.Apart u
  covered : ∀ x, u.Has x ∨ Covered left x ↔ Covered blocks x
  same : SameOutside blocks heap.mem taken.mem
  pages : taken.pages = heap.pages

variable (hlist : Listed heap (front ++ a :: rest))

include hlist in
/-- A block is taken with all its bytes. -/
lemma takeWhole_spec (hgap : Gapped (front ++ a :: rest)) (hsize : size ≤ payloadSize a) :
    Taken heap (relink heap (lastOf 0 front) (headerAt heap.mem a.start).next) (front ++ a :: rest)
      size a (front ++ rest) := by
  have ha : IsBlock a := hlist.isBlock a (by simp)
  have hfront : ∀ b ∈ front, IsBlock b := fun b hb => hlist.isBlock b (by simp [hb])
  have hrest : ∀ b ∈ rest, IsBlock b := fun b hb => hlist.isBlock b (by simp [hb])
  obtain ⟨hfrontGapped, hbackGapped, hcross⟩ := pairwise_append.mp hgap
  obtain ⟨haAfter, hrestGapped⟩ := pairwise_cons.mp hbackGapped
  obtain ⟨hfrontChain, haHeader, hrestChain⟩ := chain_append.mp hlist.chain
  have hhead : heap.freeList = firstOf front a.start := by
    rw [hlist.head, firstOf_append]
    rfl
  rw [haHeader]
  obtain ⟨hfirst, hchain, hsame, hpages⟩ := relink_spec hfront
    (Gapped.ordered hfrontGapped) hhead hfrontChain
    (firstOf_lt hrest (show 0 < addressLimit by decide))
  have hkept :
      SameInside (a :: rest) heap.mem (relink heap (lastOf 0 front) (firstOf rest 0)).mem :=
    hsame.inside fun b hb c hc => .inr (hcross c hc b hb).le
  have hleft : Gapped (front ++ rest) := hgap.sublist
    (List.Sublist.append_left (sublist_cons_self a rest) front)
  exact
    { isBlock := ha
      large := hsize
      size := by
        show (headerAt (relink heap (lastOf 0 front) (firstOf rest 0)).mem a.start).size = _
        rw [ha.headerAt_eq hkept mem_cons_self, haHeader]
        rfl
      listed :=
        { isBlock := fun b hb => (mem_append.mp hb).elim (hfront b) (hrest b)
          ordered := hleft.ordered
          head := hfirst.trans (firstOf_append front rest 0).symm
          chain := chain_append.mpr ⟨hchain, hrestChain.frame hrest fun b hb =>
            hkept b (mem_cons_of_mem _ hb)⟩ }
      gapped := hleft
      apart := fun b hb => (mem_append.mp hb).elim
        (fun hb => .inl (hcross b hb a mem_cons_self).le) (fun hb => .inr (haAfter b hb).le)
      covered := by
        intro x
        rw [covered_append, covered_append, covered_cons, or_left_comm]
      same := hsame.mono fun x hx => covered_append.mpr (.inl hx)
      pages := hpages }

/-- A block is cut and its front part handed out. -/
def takeFront (heap : Heap) (front : List Interval) (a : Interval) (size next : Nat) : Heap :=
  let mem := freeHeader heap.mem (remainder a size).start (payloadSize (remainder a size)) next
  let linked := relink { heap with mem := mem } (lastOf 0 front) (remainder a size).start
  { linked with mem := setSize linked.mem a.start size }

include hlist

/-- A block is taken without the bytes that are not needed. -/
lemma takeFront_spec (hgap : Gapped (front ++ a :: rest))
    (halign : mallocAlign ∣ size) (hroom : size + headerSize + mallocMinSplit ≤ payloadSize a) :
    Taken heap (takeFront heap front a size (firstOf rest 0)) (front ++ a :: rest)
      size (frontPart a size) (front ++ remainder a size :: rest) := by
  have ha : IsBlock a := hlist.isBlock a (by simp)
  have hn : IsBlock (remainder a size) := isBlock_remainder ha halign hroom
  have hu : IsBlock (frontPart a size) := isBlock_frontPart ha halign hroom
  have hle : a.start ≤ (remainder a size).start := by
    show a.start ≤ a.start + headerSize + size
    omega
  have hfront : ∀ b ∈ front, IsBlock b := fun b hb => hlist.isBlock b (by simp [hb])
  have hrest : ∀ b ∈ rest, IsBlock b := fun b hb => hlist.isBlock b (by simp [hb])
  obtain ⟨hfrontGapped, hbackGapped, hcross⟩ := pairwise_append.mp hgap
  obtain ⟨haAfter, hrestGapped⟩ := pairwise_cons.mp hbackGapped
  obtain ⟨hfrontChain, haHeader, hrestChain⟩ := chain_append.mp hlist.chain
  have hfrontBefore : ∀ b ∈ front, b.stop < a.start := fun b hb => hcross b hb a mem_cons_self
  have hleft : Gapped (front ++ remainder a size :: rest) := by
    refine pairwise_append.mpr ⟨hfrontGapped, pairwise_cons.mpr ⟨haAfter, hrestGapped⟩, ?_⟩
    intro b hb c hc
    rcases mem_cons.mp hc with rfl | hc
    · exact (hfrontBefore b hb).trans_le hle
    · exact hcross b hb c (mem_cons_of_mem _ hc)
  have hblocks : ∀ b ∈ front ++ remainder a size :: rest, IsBlock b := fun b hb =>
    (mem_append.mp hb).elim (hfront b) (forall_mem_cons.mpr ⟨hn, hrest⟩ b)
  -- the header of the remainder lies inside the block that is split
  have hnew : SameOutside [remainder a size] heap.mem (freeHeader heap.mem (remainder a size).start
      (payloadSize (remainder a size)) (firstOf rest 0)) :=
    hn.sameOutside (sameOutside_freeHeader hn.header_le _ _)
  obtain ⟨hlinked, hlinkSame, hlinkPages⟩ := @link_spec { heap with
      mem := freeHeader heap.mem (remainder a size).start (payloadSize (remainder a size))
        (firstOf rest 0) }
    rest front (remainder a size) a.start hblocks hleft.ordered
    (by
      rw [hlist.head, firstOf_append]
      rfl)
    (hfrontChain.frame hfront (hnew.inside_one fun b hb => .inl ((hfrontBefore b hb).le.trans hle)))
    (by
      rw [headerAt_freeHeader hn.header_le, Nat.mod_eq_of_lt hn.payload_lt,
        Nat.mod_eq_of_lt (firstOf_lt hrest (by decide))]
      rfl)
    (hrestChain.frame hrest (hnew.inside_one fun b hb => .inr (haAfter b hb).le))
  have hapart : ∀ b ∈ front ++ remainder a size :: rest, b.Apart (frontPart a size) := by
    intro b hb
    rcases mem_append.mp hb with hb | hb
    · exact .inl (hfrontBefore b hb).le
    rcases mem_cons.mp hb with rfl | hb
    · exact .inr le_rfl
    · refine .inr (Nat.le_trans ?_ (haAfter b hb).le)
      exact (Nat.le_add_right _ headerSize).trans ((Nat.le_add_right _ _).trans (split_le ha hroom))
  have hlast := @sameOutside_setSize (relink { heap with
    mem := freeHeader heap.mem (remainder a size).start (payloadSize (remainder a size))
      (firstOf rest 0) }
      (lastOf 0 front) (remainder a size).start).mem _ hu.header_le size
  have hsplit := has_split ha hroom
  exact
    { isBlock := hu
      large := by
        rw [payloadSize_frontPart]
      size := by
        show (headerAt (setSize _ (frontPart a size).start size) _).size = _
        rw [headerAt_setSize hu.header_le]
        rw [Nat.mod_eq_of_lt (by have := ha.payload_lt; omega), payloadSize_frontPart]
      listed :=
        { isBlock := hblocks
          ordered := hleft.ordered
          head := hlinked.head
          chain := hlinked.chain.frame hblocks ((hu.sameOutside hlast).inside_one hapart) }
      gapped := hleft
      apart := hapart
      covered := by
        intro x
        rw [covered_append, covered_cons, covered_append, covered_cons, hsplit x,
          or_left_comm, or_assoc]
      same := by
        have hins : ∀ x, a.Has x → Covered (front ++ a :: rest) x := fun x hx => ⟨a, by simp, hx⟩
        refine ((hnew.mono ?_).trans (hlinkSame.mono ?_)).trans ((hu.sameOutside hlast).mono ?_)
        · exact fun x hx => hins x ((hsplit x).mpr (.inr (covered_singleton.mp hx)))
        · exact fun x hx => covered_append.mpr (.inl hx)
        · exact fun x hx => hins x ((hsplit x).mpr (.inl (covered_singleton.mp hx)))
      pages := hlinkPages }

lemma takeBlock_spec (hgap : Gapped (front ++ a :: rest))
    (halign : mallocAlign ∣ size) (hsize : size ≤ payloadSize a) :
    ∃ u left, u.start = a.start ∧ Taken heap (takeBlock heap a.start (lastOf 0 front) size)
      (front ++ a :: rest) size u left := by
  have ha : IsBlock a := hlist.isBlock a (by simp)
  have hfields : headerAt heap.mem a.start = freeFields a (firstOf rest 0) := hlist.headerAt_eq
  have hwrap : (size + headerSize + mallocMinSplit) % addressLimit =
      size + headerSize + mallocMinSplit :=
    Nat.mod_eq_of_lt (ha.add_split_lt hsize)
  by_cases hroom : size + headerSize + mallocMinSplit ≤ payloadSize a
  · refine ⟨frontPart a size, front ++ remainder a size :: rest, rfl, ?_⟩
    have htake : takeBlock heap a.start (lastOf 0 front) size =
        takeFront heap front a size (firstOf rest 0) := by
      unfold takeBlock
      rw [hwrap, if_pos (by rw [hfields]; exact hroom), remainder_start ha hroom]
      rw [hfields, show (freeFields a (firstOf rest 0)).size = payloadSize a from rfl,
        payloadSize_remainder ha hroom]
      rfl
    rw [htake]
    exact takeFront_spec hlist hgap halign hroom
  · refine ⟨a, front ++ rest, rfl, ?_⟩
    unfold takeBlock
    rw [hwrap, if_neg (by rw [hfields]; exact hroom)]
    exact takeWhole_spec hlist hgap hsize

omit hlist

namespace Partition

/-- Another memory with the same bytes in the free blocks. -/
lemma withMem (hpart : Partition heap blocks used) (hsame : SameInside blocks heap.mem mem) :
    Partition { heap with mem := mem } blocks used :=
  { hpart with listed := hpart.listed.frame rfl hsame }

/-- The block that was taken is a block in use. -/
lemma take {taken : Heap} {u : Interval} {left : List Interval} (hpart : Partition heap blocks used)
    (htaken : Taken heap taken blocks size u left) :
    Partition taken left (u :: used) ∧ SameInside used heap.mem taken.mem := by
  have hcov : ∀ x, Covered (u :: left) x ↔ Covered blocks x := fun x =>
    covered_cons.trans (htaken.covered x)
  have hlong : ∀ b ∈ u :: left, b.start < b.stop := forall_mem_cons.mpr
    ⟨htaken.isBlock.start_lt_stop, fun b hb => (htaken.listed.isBlock b hb).start_lt_stop⟩
  have hapart : ∀ w ∈ used, ∀ b ∈ u :: left, w.Apart b := fun w hw b hb =>
    apart_of_covered (hpart.isBlock w hw).start_lt_stop (hlong b hb) (hpart.apartFree w hw)
      fun x hx => (hcov x).mp ⟨b, hb, hx⟩
  refine ⟨?_, hpart.sameInside htaken.same⟩
  exact
    { htaken with
      isBlock := forall_mem_cons.mpr ⟨htaken.isBlock, hpart.isBlock⟩
      apart := pairwise_cons.mpr ⟨fun w hw => (hapart w hw u mem_cons_self).symm, hpart.apart⟩
      apartFree := forall_mem_cons.mpr ⟨fun b hb => (htaken.apart b hb).symm,
        fun w hw b hb => hapart w hw b (mem_cons_of_mem _ hb)⟩
      covered := by
        intro x
        rw [htaken.pages, ← hpart.covered x, covered_append, covered_append, ← hcov x,
          covered_cons, covered_cons, or_left_comm, or_assoc]
      page := by
        rw [htaken.pages]
        exact hpart.page }

/-- A free block is handed out. -/
lemma handOut_spec (hpart : Partition heap (front ++ a :: rest) used) (halign : mallocAlign ∣ size)
    (hsize : size ≤ payloadSize a) :
    ∃ heap' u left, handOut heap a.start (lastOf 0 front) size = (heap', u.start + headerSize) ∧
      Partition heap' left (u :: used) ∧ headerAt heap'.mem u.start = usedFields u ∧
      size ≤ payloadSize u ∧ SameInside used heap.mem heap'.mem := by
  obtain ⟨u, left, hstart, htaken⟩ := takeBlock_spec hpart.listed hpart.gapped halign hsize
  rw [← hstart] at htaken
  obtain ⟨htakenPart, htakenSame⟩ := hpart.take htaken
  have hu := htaken.isBlock
  unfold handOut
  rw [← hstart]
  generalize takeBlock heap u.start (lastOf 0 front) size = taken at *
  have hhdr : SameOutside [u] taken.mem
      (setReserved (setMagic (setNext taken.mem u.start 0) u.start mallocMagicAlloc) u.start 0) :=
    hu.sameOutside
      (((sameOutside_setNext hu.header_le _).trans (sameOutside_setMagic hu.header_le _)).trans
      (sameOutside_setReserved hu.header_le _))
  obtain ⟨huApart, -⟩ := pairwise_cons.mp htakenPart.apart
  refine ⟨_, u, left, by rw [hu.blockPayload_eq], htakenPart.withMem ?_, ?_, htaken.large,
    htakenSame.trans ?_⟩
  · exact hhdr.inside_one htaken.apart
  · rw [headerAt_setReserved hu.header_le, headerAt_setMagic hu.header_le,
      headerAt_setNext hu.header_le]
    dsimp only
    rw [htaken.size]
    rfl
  · exact hhdr.inside_one fun w hw => (huApart w hw).symm

variable {answers : List Nat} {u : Interval}

/-- A block of at least the size is in use behind the pointer, and its header is set. -/
structure Allocated (heap' : Heap) (blocks used : List Interval) (size : Nat)
    (u : Interval) : Prop where
  partition : Partition heap' blocks (u :: used)
  header : headerAt heap'.mem u.start = usedFields u
  large : size ≤ payloadSize u

/-- The result of a call that may hand out a block and leaves the other blocks in use. -/
def HandsOut (heap : Heap) (used : List Interval) (size : Nat)
    (result : Option (Heap × Nat)) : Prop :=
  ∃ heap' ptr blocks', result = some (heap', ptr) ∧ SameInside used heap.mem heap'.mem ∧
    (ptr = 0 ∧ Partition heap' blocks' used ∨
      ∃ u, ptr = u.start + headerSize ∧ Allocated heap' blocks' used size u)

lemma handsOut_null {heap' : Heap} (hpart : Partition heap' blocks used)
    (hsame : SameInside used heap.mem heap'.mem) : HandsOut heap used size (some (heap', 0)) :=
  ⟨heap', 0, blocks, rfl, hsame, .inl ⟨rfl, hpart⟩⟩

lemma handsOut_block {grown : Heap} {aligned : Nat}
    (hpart : Partition grown (front ++ a :: rest) used)
    (hsame : SameInside used heap.mem grown.mem) (hle : size ≤ aligned)
    (halign : mallocAlign ∣ aligned) (hlarge : aligned ≤ payloadSize a) :
    HandsOut heap used size (some (handOut grown a.start (lastOf 0 front) aligned)) := by
  obtain ⟨heap', u, left, hhand, hres, hhdr, hsize, hkept⟩ := hpart.handOut_spec halign hlarge
  exact ⟨heap', _, left, congrArg some hhand, hsame.trans hkept,
    .inr ⟨u, rfl, hres, hhdr, hle.trans hsize⟩⟩

/-- `malloc` hands out a block or leaves the blocks in use as they are. -/
lemma malloc_spec (hpart : Partition heap blocks used) (hfresh : FreshPages heap.pages answers)
    (hbelow : BelowLast answers) (size : Nat) :
    HandsOut heap used size (malloc heap answers size) := by
  have hsame : SameInside used heap.mem heap.mem := fun _ _ _ _ => rfl
  rw [malloc]
  split
  · exact handsOut_null hpart hsame
  split
  · exact handsOut_null hpart hsame
  rename_i hmax
  obtain ⟨hle, halign⟩ := mallocAlignUp_spec hmax
  generalize mallocAlignUp size = aligned at hle halign ⊢
  dsimp only
  rcases findBlock_spec hpart.listed hpart.gapped aligned with
    hnone | ⟨front, a, rest, rfl, hlarge, hfind⟩
  · obtain ⟨grown, ok, grownBlocks, hreq, hgrown, hgrownSame⟩ :=
      hpart.mallocRequestPages_spec hfresh hbelow aligned
    rw [hnone]
    rw [hreq]
    rcases ok with _ | _
    · exact handsOut_null hgrown hgrownSame
    dsimp only
    rcases findBlock_spec hgrown.listed hgrown.gapped aligned with
      hnone | ⟨front, a, rest, rfl, hlarge, hfind⟩
    · rw [hnone]
      exact handsOut_null hgrown hgrownSame
    · have ha : IsBlock a := hgrown.listed.isBlock a (by simp)
      rw [hfind]
      dsimp only
      rw [if_neg ha.positive.ne']
      exact handsOut_block hgrown hgrownSame hle halign hlarge
  · have ha : IsBlock a := hpart.listed.isBlock a (by simp)
    rw [hfind]
    dsimp only
    rw [if_neg ha.positive.ne']
    exact handsOut_block hpart hsame hle halign hlarge

lemma blockOf_eq (hu : IsBlock u) : blockOf (u.start + headerSize) = u.start := by
  have hhdr := hu.header
  have hbelow := hu.below
  unfold blockOf
  rw [sizeSub_eq (Nat.le_add_left _ _) (by omega), Nat.add_sub_cancel]

variable (hpart : Partition heap blocks (u :: used))

include hpart

variable (hhdr : headerAt heap.mem u.start = usedFields u)

include hhdr in
/-- `free` gives a block in use back. -/
lemma free_spec :
    ∃ heap' blocks', free heap (u.start + headerSize) = some heap' ∧ Partition heap' blocks' used ∧
      SameInside used heap.mem heap'.mem := by
  have hu : IsBlock u := hpart.isBlock u mem_cons_self
  obtain ⟨heap', hinsert, hres, hsame⟩ := hpart.insert (by rw [hhdr]; rfl)
  refine ⟨heap', _, ?_, hres, hsame⟩
  unfold free
  rw [blockOf_eq hu, hhdr]
  exact hinsert

/-- A block in use is two blocks. -/
lemma split (halign : mallocAlign ∣ size)
    (hroom : size + headerSize + mallocMinSplit ≤ payloadSize u) :
    Partition heap blocks (remainder u size :: frontPart u size :: used) := by
  have hu : IsBlock u := hpart.isBlock u mem_cons_self
  have hn := isBlock_remainder hu halign hroom
  have hf := isBlock_frontPart hu halign hroom
  have hsplit := has_split hu hroom
  obtain ⟨huApart, hapart⟩ := pairwise_cons.mp hpart.apart
  -- what is apart from the block is apart from its parts
  have hparts : ∀ w : Interval, w.start < w.stop → u.Apart w →
      (remainder u size).Apart w ∧ (frontPart u size).Apart w := by
    intro w hw hwu
    have hone : ∀ b ∈ [u], w.Apart b := fun b hb => by
      rw [mem_singleton.mp hb]
      exact hwu.symm
    exact ⟨(apart_of_covered hw hn.start_lt_stop hone fun x hx =>
        ⟨u, mem_singleton_self u, (hsplit x).mpr (.inr hx)⟩).symm,
      (apart_of_covered hw hf.start_lt_stop hone fun x hx =>
        ⟨u, mem_singleton_self u, (hsplit x).mpr (.inl hx)⟩).symm⟩
  have hused :=
    fun w hw => hparts w (hpart.isBlock w (mem_cons_of_mem _ hw)).start_lt_stop (huApart w hw)
  have hfree := fun b hb => hparts b (hpart.listed.isBlock b hb).start_lt_stop
    (hpart.apartFree u mem_cons_self b hb)
  exact
    { hpart with
      isBlock := forall_mem_cons.mpr ⟨hn, forall_mem_cons.mpr
        ⟨hf, fun w hw => hpart.isBlock w (mem_cons_of_mem _ hw)⟩⟩
      apart := pairwise_cons.mpr ⟨forall_mem_cons.mpr ⟨.inr le_rfl, fun w hw => (hused w hw).1⟩,
          pairwise_cons.mpr ⟨fun w hw => (hused w hw).2, hapart⟩⟩
      apartFree := forall_mem_cons.mpr ⟨fun b hb => (hfree b hb).1, forall_mem_cons.mpr
        ⟨fun b hb => (hfree b hb).2, fun w hw => hpart.apartFree w (mem_cons_of_mem _ hw)⟩⟩
      covered := by
        intro x
        rw [← hpart.covered x, covered_append, covered_append, covered_cons, covered_cons,
          covered_cons, hsplit x, or_assoc, or_left_comm (a := (remainder u size).Has x)] }

include hhdr in
/-- A block in use is cut to a smaller size. -/
lemma mallocSplitAllocatedBlock_spec (halign : mallocAlign ∣ size) (hsize : size ≤ payloadSize u) :
    ∃ heap' v blocks', mallocSplitAllocatedBlock heap u.start size = some heap' ∧
      v.start = u.start ∧
      v.stop ≤ u.stop ∧ Allocated heap' blocks' used size v ∧ SameInside used heap.mem heap'.mem ∧
      ∀ x, v.start + headerSize ≤ x → x < v.stop → heap'.mem x = heap.mem x := by
  have hu : IsBlock u := hpart.isBlock u mem_cons_self
  have hwrap : (size + headerSize + mallocMinSplit) % addressLimit =
      size + headerSize + mallocMinSplit :=
    Nat.mod_eq_of_lt (hu.add_split_lt hsize)
  rw [mallocSplitAllocatedBlock, hwrap, hhdr, show (usedFields u).size = payloadSize u from rfl]
  by_cases hroom : size + headerSize + mallocMinSplit ≤ payloadSize u
  · have hn := isBlock_remainder hu halign hroom
    have hf := isBlock_frontPart hu halign hroom
    have hparts := hpart.split halign hroom
    have hfree : ∀ b ∈ blocks, b.Apart (remainder u size) ∧
        b.Apart (frontPart u size) := fun b hb =>
      ⟨(hparts.apartFree _ mem_cons_self b hb).symm,
        (hparts.apartFree _ (mem_cons_of_mem _ mem_cons_self) b hb).symm⟩
    have hused : ∀ w ∈ used, w.Apart (remainder u size) ∧ w.Apart (frontPart u size) := by
      obtain ⟨hnApart, hrest⟩ := pairwise_cons.mp hparts.apart
      exact fun w hw => ⟨(hnApart w (mem_cons_of_mem _ hw)).symm,
        ((pairwise_cons.mp hrest).1 w hw).symm⟩
    -- the new header lies in the rest, the new size in the header of the block
    obtain ⟨marked, hmark⟩ :
        ∃ mem, freeHeader heap.mem (remainder u size).start
          (payloadSize (remainder u size)) 0 = mem :=
      ⟨_, rfl⟩
    have hnew : SameOutside [remainder u size] heap.mem marked :=
      hmark ▸ hn.sameOutside (sameOutside_freeHeader hn.header_le _ 0)
    have hcutHeader := @sameOutside_setSize marked _ hf.header_le size
    have hcut := hf.sameOutside hcutHeader
    have hnewFront := @SameOutside.inside_one _ _ [frontPart u size] _ hnew
      (forall_mem_singleton.mpr (.inl le_rfl))
    have hcutRest := @SameOutside.inside_one _ _ [remainder u size] _ hcut
      (forall_mem_singleton.mpr (.inr le_rfl))
    have hcutPart : Partition { heap with mem := setSize marked u.start size } blocks
        (remainder u size :: frontPart u size :: used) :=
      hparts.withMem ((hnew.inside_one fun b hb => (hfree b hb).1).trans
        (hcut.inside_one fun b hb => (hfree b hb).2))
    have hrestHeader : (headerAt (setSize marked u.start size) (remainder u size).start).size =
        payloadSize (remainder u size) := by
      refine (congrArg Header.size (hn.headerAt_eq hcutRest (mem_singleton_self _))).trans ?_
      rw [← hmark, headerAt_freeHeader hn.header_le]
      exact Nat.mod_eq_of_lt hn.payload_lt
    obtain ⟨heap', hinsert, hres, hsame⟩ := hcutPart.insert hrestHeader
    have hfrontHeader : headerAt heap'.mem (frontPart u size).start =
        usedFields (frontPart u size) := by
      rw [hf.headerAt_eq hsame mem_cons_self]
      show headerAt (setSize marked (frontPart u size).start size) (frontPart u size).start = _
      rw [headerAt_setSize hf.header_le, hf.headerAt_eq hnewFront (mem_singleton_self _)]
      show { headerAt heap.mem u.start with size := size % addressLimit } = _
      rw [hhdr, Nat.mod_eq_of_lt (by have := hu.payload_lt; omega)]
      unfold usedFields
      rw [payloadSize_frontPart]
    refine ⟨heap', frontPart u size, _, ?_, rfl, ?_, ⟨hres, hfrontHeader, ?_⟩, ?_, ?_⟩
    · rw [if_neg (not_or.mpr ⟨hu.positive.ne', Nat.not_lt.mpr hroom⟩), remainder_start hu hroom]
      dsimp only
      rw [payloadSize_remainder hu hroom, hmark]
      exact hinsert
    · exact (Nat.le_add_right _ headerSize).trans ((Nat.le_add_right _ _).trans (split_le hu hroom))
    · rw [payloadSize_frontPart]
    · exact ((hnew.inside_one fun w hw => (hused w hw).1).trans
        (hcut.inside_one fun w hw => (hused w hw).2)).trans fun w hw =>
        hsame w (mem_cons_of_mem _ hw)
    · intro x hle hlt
      have hx : (frontPart u size).Has x := ⟨(Nat.le_add_right _ _).trans hle, hlt⟩
      rw [hsame _ mem_cons_self x hx]
      exact (hcutHeader x (not_covered_singleton.mpr (.inr hle))).trans
        (hnewFront _ (mem_singleton_self _) x hx)
  · rw [if_pos (.inr (Nat.lt_of_not_le hroom))]
    exact ⟨heap, u, blocks, rfl, rfl, le_rfl, ⟨hpart, hhdr, hsize⟩, fun _ _ _ _ => rfl,
      fun _ _ _ => rfl⟩

omit hpart

/-! ## `calloc` and `realloc` -/

/-- The bytes of a block behind its header. -/
def payload (u : Interval) : Interval := ⟨u.start + headerSize, u.stop⟩

/-- Changes in the payload of a block leave its header and all other blocks. -/
lemma Allocated.withMem {heap' : Heap} (halloc : Allocated heap' blocks used size u)
    (hsame : SameOutside [payload u] heap'.mem mem) :
    Allocated { heap' with mem := mem } blocks used size u ∧ SameInside used heap'.mem mem := by
  have hpart := halloc.partition
  have hu : IsBlock u := hpart.isBlock u mem_cons_self
  have hpay : ∀ {w : Interval}, w.Apart u → w.Apart (payload u) := by
    intro w hapart
    rcases hapart with h | h
    · exact .inl (h.trans (Nat.le_add_right _ _))
    · exact .inr h
  obtain ⟨huApart, -⟩ := pairwise_cons.mp hpart.apart
  refine ⟨⟨hpart.withMem (hsame.inside_one fun b hb => ?_), ?_, halloc.large⟩,
    hsame.inside_one fun w hw => hpay (huApart w hw).symm⟩
  · exact hpay (hpart.apartFree u mem_cons_self b hb).symm
  rw [← halloc.header]
  exact headerAt_congr hu.header_le fun x hx => hsame x (not_covered_singleton.mpr (.inl hx.2))

lemma payload_le (hu : IsBlock u) : u.start + headerSize + payloadSize u < addressLimit := by
  rw [hu.stop_eq]
  exact hu.below

/-- `calloc` hands out a block of zeros. -/
lemma calloc_spec (hpart : Partition heap blocks used) (hfresh : FreshPages heap.pages answers)
    (hbelow : BelowLast answers) (nmemb size : Nat) :
    ∃ heap' ptr blocks', calloc heap answers nmemb size = some (heap', ptr) ∧
      SameInside used heap.mem heap'.mem ∧
      (ptr = 0 ∧ Partition heap' blocks' used ∨
        ∃ u, ptr = u.start + headerSize ∧ Allocated heap' blocks' used (nmemb * size) u ∧
          ∀ i < nmemb * size, heap'.mem (u.start + headerSize + i) = 0) := by
  rw [calloc]
  by_cases hover : nmemb ≠ 0 ∧ sizeMax / nmemb < size
  · rw [if_pos hover]
    exact ⟨heap, 0, blocks, rfl, fun _ _ _ _ => rfl, .inl ⟨rfl, hpart⟩⟩
  have hproduct : nmemb * size ≤ sizeMax := by
    by_cases hzero : nmemb = 0
    · rw [hzero, Nat.zero_mul]
      exact Nat.zero_le _
    · have hle : size ≤ sizeMax / nmemb := Nat.le_of_not_lt fun h => hover ⟨hzero, h⟩
      exact (Nat.mul_le_mul_left nmemb hle).trans (Nat.mul_div_le sizeMax nmemb)
  rw [if_neg hover, Nat.mod_eq_of_lt (hproduct.trans_lt (by decide))]
  dsimp only
  obtain ⟨heap₁, ptr, blocks₁, hmalloc, hsame, hcase⟩ :=
    hpart.malloc_spec hfresh hbelow (nmemb * size)
  rw [hmalloc]
  rcases hcase with ⟨rfl, hnull⟩ | ⟨u, rfl, halloc⟩
  · exact ⟨heap₁, 0, blocks₁, rfl, hsame, .inl ⟨rfl, hnull⟩⟩
  have hu : IsBlock u := halloc.partition.isBlock u mem_cons_self
  have hfits := payload_le hu
  have hlarge := halloc.large
  have hstop := hu.stop_eq
  have hend : u.start + headerSize + (List.replicate (nmemb * size) (0 : UInt8)).length ≤
      addressLimit := by
    rw [length_replicate]
    omega
  have houtside : SameOutside [payload u] heap₁.mem
      (heap₁.mem.storeBytes (u.start + headerSize) (List.replicate (nmemb * size) 0)) := by
    intro x hx
    have hfar : x < u.start + headerSize ∨ u.stop ≤ x := not_covered_singleton.mp hx
    exact storeBytes_of_outside hend (by rw [length_replicate]; omega)
  obtain ⟨hzeroed, hkept⟩ := halloc.withMem houtside
  refine ⟨_, _, blocks₁, rfl, hsame.trans hkept, .inr ⟨u, rfl, hzeroed, fun i hi => ?_⟩⟩
  refine (storeBytes_inside hend (by rwa [length_replicate])).trans ?_
  exact getElem_replicate _

/-- The bytes that both payloads have room for are the same. -/
def SamePrefix (mem mem' : ByteMemory) (u v : Interval) : Prop :=
  ∀ i, i < payloadSize u → i < payloadSize v →
    mem' (v.start + headerSize + i) = mem (u.start + headerSize + i)

include hhdr

/-- A larger block takes the place of one in use. -/
lemma move_spec {heap₁ : Heap} {blocks₁ : List Interval} {v : Interval}
    (hlarger : payloadSize u < size)
    (hsame : SameInside (u :: used) heap.mem heap₁.mem)
    (halloc : Allocated heap₁ blocks₁ (u :: used) size v) :
    ∃ heap' blocks', free { heap₁ with
        mem := heap₁.mem.copyBytes (v.start + headerSize) (u.start + headerSize) (payloadSize u) }
        (u.start + headerSize) = some heap' ∧ SameInside used heap.mem heap'.mem ∧
      Allocated heap' blocks' used size v ∧ SamePrefix heap.mem heap'.mem u v := by
  have hv : IsBlock v := halloc.partition.isBlock v mem_cons_self
  have hu : IsBlock u := halloc.partition.isBlock u (mem_cons_of_mem _ mem_cons_self)
  have hlarge := halloc.large
  have hvStop := hv.stop_eq
  have huStop := hu.stop_eq
  have hvBelow := hv.below
  have huBelow := hu.below
  have hapart : v.Apart u := (pairwise_cons.mp halloc.partition.apart).1 u mem_cons_self
  obtain ⟨mem₂, hcopy⟩ : ∃ mem, heap₁.mem.copyBytes (v.start + headerSize) (u.start + headerSize)
    (payloadSize u) = mem := ⟨_, rfl⟩
  have houtside : SameOutside [payload v] heap₁.mem mem₂ := by
    intro x hx
    have hfar : x < v.start + headerSize ∨ v.stop ≤ x := not_covered_singleton.mp hx
    rw [← hcopy]
    exact copyBytes_of_outside (by omega) (by omega)
  obtain ⟨hcopied, hkept⟩ := halloc.withMem houtside
  have huHeader : headerAt mem₂ u.start = usedFields u := by
    rw [hu.headerAt_eq (hsame.trans hkept) mem_cons_self, hhdr]
  obtain ⟨heap', blocks', hfree, hres, hfreeSame⟩ :=
    (hcopied.partition.perm (List.Perm.swap u v used)).free_spec huHeader
  rw [hcopy]
  refine ⟨heap', blocks', hfree, ?_, ⟨hres, ?_, hlarge⟩, ?_⟩
  · have hrest : SameInside used heap.mem mem₂ := fun w hw =>
      (hsame.trans hkept) w (mem_cons_of_mem _ hw)
    exact hrest.trans fun w hw => hfreeSame w (mem_cons_of_mem _ hw)
  · rw [hv.headerAt_eq hfreeSame mem_cons_self]
    exact hcopied.header
  · intro i hiu hiv
    have hvHas : v.Has (v.start + headerSize + i) := ⟨by omega, by omega⟩
    have huHas : u.Has (u.start + headerSize + i) := ⟨by omega, by omega⟩
    rw [hfreeSame v mem_cons_self _ hvHas, ← hsame u mem_cons_self _ huHas]
    rw [← hcopy]
    exact copyBytes_inside (by omega) (by omega) (by unfold Apart at hapart; omega) hiu

include hpart in
/-- `realloc` frees the block, cuts it, moves it, or leaves it. -/
lemma realloc_spec (hfresh : FreshPages heap.pages answers)
    (hbelow : BelowLast answers) (size : Nat) :
    ∃ heap' ptr blocks', realloc heap answers (u.start + headerSize) size = some (heap', ptr) ∧
      SameInside used heap.mem heap'.mem ∧
      (size = 0 ∧ ptr = 0 ∧ Partition heap' blocks' used ∨
        size ≠ 0 ∧ ptr = 0 ∧ Partition heap' blocks' (u :: used) ∧
          SameInside [u] heap.mem heap'.mem ∨
        ∃ v, ptr = v.start + headerSize ∧ Allocated heap' blocks' used size v ∧
          SamePrefix heap.mem heap'.mem u v) := by
  have hu : IsBlock u := hpart.isBlock u mem_cons_self
  rw [realloc]
  by_cases hzero : size = 0
  · obtain ⟨heap', blocks', hfree, hres, hsame⟩ := hpart.free_spec hhdr
    rw [if_pos hzero, hfree]
    exact ⟨heap', 0, blocks', rfl, hsame, .inl ⟨hzero, rfl, hres⟩⟩
  rw [if_neg hzero]
  by_cases hmax : sizeMax - (mallocAlign - 1) < size
  · rw [if_pos hmax]
    exact ⟨heap, 0, blocks, rfl, fun _ _ _ _ => rfl,
      .inr (.inl ⟨hzero, rfl, hpart, fun _ _ _ _ => rfl⟩)⟩
  rw [if_neg hmax, blockOf_eq hu, hhdr, show (usedFields u).size = payloadSize u from rfl]
  obtain ⟨hle, halign⟩ := mallocAlignUp_spec hmax
  generalize mallocAlignUp size = aligned at hle halign ⊢
  by_cases hfits : aligned ≤ payloadSize u
  · obtain ⟨heap', v, blocks', hsplit, hstart, hstop, halloc, hsame, hbytes⟩ :=
      hpart.mallocSplitAllocatedBlock_spec hhdr halign hfits
    have hv : IsBlock v := halloc.partition.isBlock v mem_cons_self
    have hvStop := hv.stop_eq
    rw [if_pos hfits, hsplit]
    refine ⟨heap', _, blocks', rfl, hsame, .inr (.inr ⟨v, by rw [hstart],
      ⟨halloc.partition, halloc.header, hle.trans halloc.large⟩, fun i _ hi => ?_⟩)⟩
    rw [hbytes _ (by omega) (by omega), hstart]
  · rw [if_neg hfits]
    obtain ⟨heap₁, ptr, blocks₁, hmalloc, hsame, hcase⟩ := hpart.malloc_spec hfresh hbelow aligned
    rw [hmalloc]
    dsimp only
    rcases hcase with ⟨rfl, hnull⟩ | ⟨v, rfl, halloc⟩
    · exact ⟨heap₁, 0, blocks₁, rfl, fun w hw => hsame w (mem_cons_of_mem _ hw),
        .inr (.inl ⟨hzero, rfl, hnull, forall_mem_singleton.mpr (hsame u mem_cons_self)⟩)⟩
    have hsizeKept : (headerAt heap₁.mem u.start).size = payloadSize u := by
      rw [hu.headerAt_eq hsame mem_cons_self, hhdr]
      rfl
    obtain ⟨heap', blocks', hfree, hkept, hmoved, hcont⟩ :=
      move_spec hhdr (Nat.lt_of_not_le hfits) hsame halloc
    rw [hsizeKept, if_pos (Nat.lt_of_not_le hfits), hfree]
    exact ⟨heap', _, blocks', rfl, hkept, .inr (.inr ⟨v, rfl,
      ⟨hmoved.partition, hmoved.header, hle.trans hmoved.large⟩, hcont⟩)⟩

end Partition

end NexOS.Libc
