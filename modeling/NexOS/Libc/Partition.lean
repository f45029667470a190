import NexOS.Libc.FreeList

/-! # The blocks of a heap

The free blocks and the blocks in use divide the pages of the heap. Every operation of
the allocator moves blocks between the two, and leaves the bytes of the blocks in use.
-/

namespace NexOS.Libc

open List ByteMemory NexOS.Interval

/-- The byte is in a page of the heap. -/
def Owned (pages : List Nat) (x : Nat) : Prop := ∃ page ∈ pages, page ≤ x ∧ x < page + pageSize

/-- The header of a block in use. -/
def usedFields (b : Interval) : Header := ⟨payloadSize b, 0, mallocMagicAlloc, 0⟩

/-- Free blocks and blocks in use make up the pages of the heap. -/
structure Partition (heap : Heap) (blocks used : List Interval) : Prop where
  listed : Listed heap blocks
  gapped : Gapped blocks
  isBlock : ∀ u ∈ used, IsBlock u
  apart : used.Pairwise Apart
  apartFree : ∀ u ∈ used, ∀ b ∈ blocks, u.Apart b
  covered : ∀ x, Covered (blocks ++ used) x ↔ Owned heap.pages x
  page : ∀ page ∈ heap.pages, pageSize ∣ page ∧ 0 < page ∧ page + pageSize < addressLimit

variable {heap heap' : Heap} {blocks blocks' used used' : List Interval} {b : Interval} {x : Nat}

lemma apart_of_covered {u : Interval} (hu : u.start < u.stop) (hb : b.start < b.stop)
    (hapart : ∀ a ∈ blocks, u.Apart a) (hcov : ∀ x, b.Has x → Covered blocks x) : u.Apart b := by
  refine apart_of_not_has hu hb fun x hux hbx => ?_
  obtain ⟨a, ha, hax⟩ := hcov x hbx
  exact (hapart a ha).not_has hux hax

namespace Partition

lemma perm (hpart : Partition heap blocks used) (hperm : used.Perm used') :
    Partition heap blocks used' :=
  { hpart with
    isBlock := fun u hu => hpart.isBlock u (hperm.mem_iff.mpr hu)
    apart := hpart.apart.perm hperm Apart.symm
    apartFree := fun u hu => hpart.apartFree u (hperm.mem_iff.mpr hu)
    covered := by
      intro x
      rw [← hpart.covered x]
      simp only [Covered, mem_append, hperm.mem_iff] }

/-- Changes inside the free blocks leave the blocks in use. -/
lemma sameInside (hpart : Partition heap blocks used) {mem : ByteMemory}
    (hsame : SameOutside blocks heap.mem mem) : SameInside used heap.mem mem :=
  hsame.inside hpart.apartFree

/-- A block in use becomes a free one. -/
lemma insert (hpart : Partition heap blocks (b :: used))
    (hsize : (headerAt heap.mem b.start).size = payloadSize b) :
    ∃ heap', mallocInsertFreeBlock heap b.start = some heap' ∧
      Partition heap' (Interval.insert blocks b) used ∧ SameInside used heap.mem heap'.mem := by
  have hb : IsBlock b := hpart.isBlock b mem_cons_self
  have hfreeApart : ∀ a ∈ blocks, a.Apart b := fun a ha =>
    (hpart.apartFree b mem_cons_self a ha).symm
  obtain ⟨hbApart, hapart⟩ := pairwise_cons.mp hpart.apart
  obtain ⟨heap', hinsert, hlist, hgap, hsame, hpages⟩ :=
    mallocInsertFreeBlock_spec hpart.listed hpart.gapped hb hfreeApart hsize
  have hused : ∀ u ∈ used, IsBlock u := fun u hu => hpart.isBlock u (mem_cons_of_mem _ hu)
  have hold : ∀ u ∈ used, ∀ a ∈ b :: blocks, u.Apart a := fun u hu =>
    forall_mem_cons.mpr ⟨(hbApart u hu).symm, hpart.apartFree u (mem_cons_of_mem _ hu)⟩
  have hcov : ∀ x, Covered (Interval.insert blocks b) x ↔ Covered (b :: blocks) x := by
    intro x
    rw [covered_cons]
    exact covered_insert (forall_mem_cons.mpr
      ⟨hb.start_lt_stop, fun a ha => (hpart.listed.isBlock a ha).start_lt_stop⟩) x
  refine ⟨heap', hinsert, ⟨hlist, hgap, hused, hapart, fun u hu a ha => ?_, fun x => ?_, ?_⟩,
    hsame.inside hold⟩
  · exact apart_of_covered (hused u hu).start_lt_stop (hlist.isBlock a ha).start_lt_stop (hold u hu)
      fun x hx => (hcov x).mp ⟨a, ha, hx⟩
  · rw [hpages, ← hpart.covered x, covered_append, hcov, covered_append, covered_cons, covered_cons,
      or_assoc, or_left_comm]
  · rw [hpages]
    exact hpart.page

end Partition

/-! ## Pages -/

/-- The kernel gives whole pages that the heap does not have. -/
def FreshPages : List Nat → List Nat → Prop
  | _, [] => True
  | pages, page :: answers =>
    (page ≠ 0 → pageSize ∣ page ∧ page < addressLimit ∧ page ∉ pages) ∧
      FreshPages (if page = 0 then pages else page :: pages) answers

instance FreshPages.decidable : (pages answers : List Nat) → Decidable (FreshPages pages answers)
  | _, [] => inferInstanceAs (Decidable True)
  | _, _ :: answers => @instDecidableAnd _ _ _ (FreshPages.decidable _ answers)

/-- The last page of the address space is not given. -/
def BelowLast (answers : List Nat) : Prop := ∀ page ∈ answers, page + pageSize < addressLimit

instance BelowLast.decidable (answers : List Nat) : Decidable (BelowLast answers) :=
  inferInstanceAs (Decidable (∀ page ∈ answers, page + pageSize < addressLimit))

/-- Pages in a row. -/
def runPages (base count : Nat) : List Nat := (List.range count).map fun j => base + j * pageSize

lemma runPages_succ (base count : Nat) :
    runPages base (count + 1) = runPages base count ++ [base + count * pageSize] := by
  unfold runPages
  rw [range_succ, map_append]
  rfl

lemma owned_append {first second : List Nat} :
    Owned (first ++ second) x ↔ Owned first x ∨ Owned second x := by
  simp [Owned, or_and_right, exists_or]

lemma owned_perm {pages pages' : List Nat} (hperm : pages.Perm pages') (x : Nat) :
    Owned pages x ↔ Owned pages' x := by
  simp only [Owned, hperm.mem_iff]

lemma owned_runPages (base count x : Nat) :
    Owned (runPages base count) x ↔ (⟨base, base + count * pageSize⟩ : Interval).Has x := by
  induction count with
  | zero =>
    unfold Owned Has runPages
    simp
  | succ count ih =>
    rw [runPages_succ, owned_append, ih]
    simp only [Owned, Has, mem_singleton, exists_eq_left, Nat.succ_mul]
    omega

/-- Two pages are the same or have no address in common. -/
lemma page_unique {page other : Nat} (hpage : pageSize ∣ page) (hother : pageSize ∣ other)
    (hx : page ≤ x ∧ x < page + pageSize) (hx' : other ≤ x ∧ x < other + pageSize) :
    page = other := by
  unfold pageSize at *
  omega

/-- The pages got so far are a run. -/
structure Running (heap : Heap) (mem : ByteMemory) (pages : List Nat) (base i : Nat) : Prop where
  perm : heap.pages.Perm (runPages base i ++ pages)
  below : base + i * pageSize < addressLimit
  positive : 0 < i
  fresh : ∀ page ∈ runPages base i, page ∉ pages
  kept : ∀ x, Owned pages x → heap.mem x = mem x

variable {mem : ByteMemory} {pages answers : List Nat} {base page i : Nat} {count : Nat}

/-- A page as the kernel gives it. -/
def zeroed (mem : ByteMemory) (page : Nat) : ByteMemory := fun x =>
  if page ≤ x ∧ x < page + pageSize then 0 else mem x

/-- The kernel has no page, or gives a fresh one. -/
lemma pageAlloc_cases (hfresh : FreshPages heap.pages answers) (hbelow : BelowLast answers) :
    (∃ rest, pageAlloc heap answers = (0, heap, rest)) ∨
      ∃ page rest, page ≠ 0 ∧ pageSize ∣ page ∧ page ∉ heap.pages ∧ page + pageSize < addressLimit ∧
        pageAlloc heap answers =
          (page, ⟨zeroed heap.mem page, heap.freeList, page :: heap.pages⟩, rest) ∧
        FreshPages (page :: heap.pages) rest ∧ BelowLast rest := by
  rcases answers with _ | ⟨page, rest⟩
  · exact .inl ⟨[], rfl⟩
  obtain ⟨hpage, hrest⟩ := hfresh
  rw [pageAlloc]
  by_cases hzero : page = 0
  · rw [if_pos hzero]
    exact .inl ⟨rest, rfl⟩
  · rw [if_neg hzero] at hrest ⊢
    obtain ⟨halign, -, hnew⟩ := hpage hzero
    exact .inr ⟨page, rest, hzero, halign, hnew, hbelow page mem_cons_self, rfl, hrest,
      fun p hp => hbelow p (mem_cons_of_mem _ hp)⟩

/-- A fresh page of zeros leaves what is on the other pages. -/
lemma zeroed_of_owned (hpages : ∀ p ∈ pages, pageSize ∣ p) (hpage : pageSize ∣ page)
    (hfresh : page ∉ pages) (hx : Owned pages x) : zeroed mem page x = mem x := by
  refine if_neg fun hnear => ?_
  obtain ⟨p, hp, hpx⟩ := hx
  rw [page_unique hpage (hpages p hp) hnear hpx] at hfresh
  exact hfresh hp

/-- Pages that are given back. -/
lemma releaseRun_spec {rest : List Nat} (hbelow : base + count * pageSize < addressLimit)
    (hpages : heap.pages.Perm (runPages base count ++ rest)) :
    (releaseRun heap base count).pages.Perm rest ∧ (releaseRun heap base count).mem = heap.mem ∧
      (releaseRun heap base count).freeList = heap.freeList := by
  induction count generalizing rest with
  | zero => exact ⟨hpages, rfl, rfl⟩
  | succ count ih =>
    rw [Nat.succ_mul] at hbelow
    rw [runPages_succ, append_assoc, singleton_append] at hpages
    obtain ⟨hperm, hmem, hlist⟩ := ih (by omega) hpages
    have hstep : releaseRun heap base (count + 1) =
        pageFree (releaseRun heap base count) (base + count * pageSize) := by
      unfold releaseRun
      rw [range_succ, foldl_append, foldl_cons, foldl_nil, pageAfter, Nat.mod_eq_of_lt (by omega)]
    rw [hstep]
    refine ⟨?_, hmem, hlist⟩
    have herase := hperm.erase (base + count * pageSize)
    rwa [erase_cons_head] at herase

/-- The request for a run either completes it or gives all of it back. -/
lemma requestRun_spec (hrun : Running heap mem pages base i)
    (hpages : ∀ p ∈ pages, pageSize ∣ p) (hfresh : FreshPages heap.pages answers)
    (hbelow : BelowLast answers) :
    ∃ heap' ok, requestRun base count i heap answers = (heap', ok) ∧
      heap'.freeList = heap.freeList ∧
      (ok = true → Running heap' mem pages base (i + count)) ∧
      (ok = false → heap'.pages.Perm pages ∧ ∀ x, Owned pages x → heap'.mem x = mem x) := by
  induction count generalizing heap i answers with
  | zero => exact ⟨heap, true, rfl, rfl, fun _ => hrun, fun h => absurd h (by decide)⟩
  | succ count ih =>
    have hafter : pageAfter base i = base + i * pageSize := Nat.mod_eq_of_lt hrun.below
    have hpositive : 0 < base + i * pageSize :=
      Nat.add_pos_right base (Nat.mul_pos hrun.positive (by decide))
    rw [requestRun, hafter]
    rcases pageAlloc_cases hfresh hbelow with
      ⟨rest, halloc⟩ | ⟨page, rest, hnz, halign, hnew, hend, halloc, hrest, hrestBelow⟩
    · obtain ⟨hperm, hmem, hlist⟩ := releaseRun_spec hrun.below hrun.perm
      rw [halloc]
      dsimp only
      rw [if_pos hpositive.ne, if_neg (by simp)]
      refine ⟨_, false, rfl, hlist, fun h => absurd h (by decide), fun _ => ⟨hperm, ?_⟩⟩
      rw [hmem]
      exact hrun.kept
    have hnotOld : page ∉ pages := fun hp => hnew (hrun.perm.mem_iff.mpr (mem_append_right _ hp))
    have hkept : ∀ x, Owned pages x → zeroed heap.mem page x = mem x := fun x hx =>
      (zeroed_of_owned hpages halign hnotOld hx).trans (hrun.kept x hx)
    rw [halloc]
    dsimp only
    by_cases hnext : page = base + i * pageSize
    · -- the page continues the run
      rw [if_neg (not_not.mpr hnext), show i + (count + 1) = i + 1 + count by omega]
      refine ih ⟨?_, ?_, Nat.succ_pos i, ?_, hkept⟩ hrest hrestBelow
      · rw [runPages_succ, ← hnext, append_assoc]
        exact (hrun.perm.cons page).trans perm_middle.symm
      · rw [Nat.succ_mul]
        omega
      · intro p hp
        rw [runPages_succ, mem_append, mem_singleton] at hp
        rcases hp with hp | rfl
        · exact hrun.fresh p hp
        · rwa [← hnext]
    · rw [if_pos hnext, if_pos hnz, pageFree]
      rw [erase_cons_head]
      obtain ⟨hperm, hmem, hlist⟩ :=
        @releaseRun_spec ⟨zeroed heap.mem page, heap.freeList, heap.pages⟩
        base i pages hrun.below hrun.perm
      refine ⟨_, false, rfl, hlist, fun h => absurd h (by decide), fun _ => ⟨hperm, ?_⟩⟩
      rw [hmem]
      exact hkept

namespace Partition

variable (hpart : Partition heap blocks used)

include hpart

lemma owned_of_has {a : Interval} (ha : a ∈ blocks ++ used) (hx : a.Has x) : Owned heap.pages x :=
  (hpart.covered x).mp ⟨a, ha, hx⟩

/-- Another heap with the same pages and the same bytes on them. -/
lemma congr (hlist : heap'.freeList = heap.freeList)
    (hpages : heap'.pages.Perm heap.pages)
    (hmem : ∀ x, Owned heap.pages x → heap'.mem x = heap.mem x) :
    Partition heap' blocks used :=
  { hpart with
    listed := hpart.listed.frame hlist fun _ ha x hx =>
      hmem x (hpart.owned_of_has (mem_append_left _ ha) hx)
    covered := fun x => (hpart.covered x).trans (owned_perm hpages x).symm
    page := fun p hp => hpart.page p (hpages.mem_iff.mp hp) }

/-- A run of fresh pages is a block of its own. -/
lemma addRun {heap₁ : Heap} (hbase : pageSize ∣ base) (hpositive : 0 < base)
    (hrun : Running heap₁ heap.mem heap.pages base i) (hlist : heap₁.freeList = heap.freeList)
    (hmem : SameOutside [headerBytes base] heap₁.mem mem) :
    Partition { heap₁ with mem := mem } blocks (⟨base, base + i * pageSize⟩ :: used) ∧
      SameInside used heap.mem mem := by
  have hlong : headerSize ≤ i * pageSize :=
    (show headerSize ≤ pageSize by decide).trans (Nat.le_mul_of_pos_left _ hrun.positive)
  have halign : mallocAlign ∣ pageSize := by decide
  have hblock : IsBlock ⟨base, base + i * pageSize⟩ :=
    { startAligned := Nat.dvd_trans halign hbase
      stopAligned := Nat.dvd_add (Nat.dvd_trans halign hbase) (Nat.dvd_mul_left_of_dvd halign i)
      positive := hpositive
      header := Nat.add_le_add_left hlong base
      below := hrun.below }
  have hpages : ∀ p ∈ heap.pages, pageSize ∣ p := fun p hp => (hpart.page p hp).1
  have hrunPages : ∀ p ∈ runPages base i, pageSize ∣ p := by
    intro p hp
    obtain ⟨j, -, rfl⟩ := mem_map.mp hp
    exact Nat.dvd_add hbase (Nat.dvd_mul_left pageSize j)
  -- a common address of old and new blocks would be on an old page and on a fresh one
  have hapart : ∀ a ∈ blocks ++ used, IsBlock a → a.Apart ⟨base, base + i * pageSize⟩ := by
    intro a ha hisBlock
    refine apart_of_not_has hisBlock.start_lt_stop hblock.start_lt_stop fun x hax hx => ?_
    obtain ⟨p, hp, hpx⟩ := hpart.owned_of_has ha hax
    obtain ⟨q, hq, hqx⟩ := (owned_runPages base i x).mpr hx
    rw [page_unique (hpages p hp) (hrunPages q hq) hpx hqx] at hp
    exact hrun.fresh q hq hp
  have hfreeApart : ∀ a ∈ blocks, a.Apart ⟨base, base + i * pageSize⟩ := fun a ha =>
    hapart a (mem_append_left _ ha) (hpart.listed.isBlock a ha)
  have husedApart : ∀ u ∈ used, u.Apart ⟨base, base + i * pageSize⟩ := fun u hu =>
    hapart u (mem_append_right _ hu) (hpart.isBlock u hu)
  have hsame : SameInside (blocks ++ used) heap.mem mem := by
    have hkept : SameInside (blocks ++ used) heap.mem heap₁.mem := fun a ha x hx =>
      hrun.kept x (hpart.owned_of_has ha hx)
    refine hkept.trans ((hblock.sameOutside hmem).inside_one fun a ha => ?_)
    rcases mem_append.mp ha with ha | ha
    · exact hfreeApart a ha
    · exact husedApart a ha
  refine ⟨⟨hpart.listed.frame hlist fun a ha => hsame a (mem_append_left _ ha), hpart.gapped,
    forall_mem_cons.mpr ⟨hblock, hpart.isBlock⟩,
    pairwise_cons.mpr ⟨fun u hu => (husedApart u hu).symm, hpart.apart⟩,
    forall_mem_cons.mpr ⟨fun a ha => (hfreeApart a ha).symm, hpart.apartFree⟩, fun x => ?_, ?_⟩,
    fun u hu => hsame u (mem_append_right _ hu)⟩
  · rw [owned_perm hrun.perm, owned_append, owned_runPages, ← hpart.covered, covered_append,
      covered_append, covered_cons, or_left_comm]
  intro p hp
  rcases mem_append.mp (hrun.perm.mem_iff.mp hp) with hp | hp
  · have hbelow := hrun.below
    obtain ⟨j, hj, rfl⟩ := mem_map.mp hp
    have hle : (j + 1) * pageSize ≤ i * pageSize := Nat.mul_le_mul_right _ (mem_range.mp hj)
    rw [Nat.succ_mul] at hle
    exact ⟨hrunPages _ hp, Nat.add_pos_left hpositive _, by omega⟩
  · exact hpart.page p hp

/-- A run of fresh pages becomes a free block. -/
lemma insertRun {grown : Heap} (hbase : pageSize ∣ base)
    (hpositive : 0 < base) (hrun : Running grown heap.mem heap.pages base i)
    (hlist : grown.freeList = heap.freeList) :
    ∃ heap' blocks', mallocInsertFreeBlock
        { grown with mem := freeHeader grown.mem base (i * pageSize - headerSize) 0 }
        base = some heap' ∧
      Partition heap' blocks' used ∧ SameInside used heap.mem heap'.mem := by
  have hbelow := hrun.below
  have hpage : headerSize ≤ i * pageSize :=
    (show headerSize ≤ pageSize by decide).trans (Nat.le_mul_of_pos_left _ hrun.positive)
  have hheaderLe : base + headerSize ≤ addressLimit := by omega
  obtain ⟨hadded, hkept⟩ := hpart.addRun hbase hpositive hrun hlist
    (sameOutside_freeHeader hheaderLe (i * pageSize - headerSize) 0)
  have hsize : (headerAt (freeHeader grown.mem base (i * pageSize - headerSize) 0) base).size =
      base + i * pageSize - base - headerSize := by
    rw [headerAt_freeHeader hheaderLe, Nat.add_sub_cancel_left]
    exact Nat.mod_eq_of_lt (by omega)
  obtain ⟨heap', hinsert, hres, hinsertSame⟩ := hadded.insert hsize
  exact ⟨heap', _, hinsert, hres, hkept.trans hinsertSame⟩

lemma firstPage (hbase : pageSize ∣ base)
    (hnew : base ∉ heap.pages) (hend : base + pageSize < addressLimit) :
    Running ⟨zeroed heap.mem base, heap.freeList, base :: heap.pages⟩ heap.mem
      heap.pages base 1 where
  perm := by
    exact List.Perm.refl _
  below := by
    rwa [Nat.one_mul]
  positive := Nat.one_pos
  fresh := by
    exact forall_mem_singleton.mpr hnew
  kept := fun _ hx => zeroed_of_owned (fun p hp => (hpart.page p hp).1) hbase hnew hx

/-- A request for a run adds a free block or leaves the blocks as they are. -/
lemma requestBlock_spec (hfresh : FreshPages heap.pages answers) (hbelow : BelowLast answers)
    (hcount : 0 < count) :
    ∃ heap' ok blocks', requestBlock heap answers count = some (heap', ok) ∧
      Partition heap' blocks' used ∧ SameInside used heap.mem heap'.mem := by
  unfold requestBlock
  rcases pageAlloc_cases hfresh hbelow with
    ⟨rest, halloc⟩ | ⟨base, rest, hnz, halign, hnew, hend, halloc, hrest, hrestBelow⟩
  · rw [halloc]
    exact ⟨heap, false, blocks, rfl, hpart, fun _ _ _ _ => rfl⟩
  obtain ⟨grown, ok, hreq, hlist, hdone, hfail⟩ :=
    @requestRun_spec _ heap.mem heap.pages rest base 1 (count - 1)
      (hpart.firstPage halign hnew hend) (fun p hp => (hpart.page p hp).1) hrest hrestBelow
  rw [halloc]
  dsimp only
  rw [if_neg hnz, hreq]
  cases ok with
  | false =>
    obtain ⟨hperm, hkept⟩ := hfail rfl
    exact ⟨grown, false, blocks, rfl, hpart.congr hlist hperm hkept,
      fun u hu x hx => hkept x (hpart.owned_of_has (mem_append_right _ hu) hx)⟩
  | true =>
    have hrun := hdone rfl
    rw [Nat.add_sub_cancel' hcount] at hrun
    obtain ⟨heap', blocks', hinsert, hres, hkept⟩ :=
      hpart.insertRun halign (Nat.pos_of_ne_zero hnz) hrun hlist
    dsimp only
    rw [hinsert]
    exact ⟨heap', true, blocks', rfl, hres, hkept⟩

lemma mallocRequestPages_spec
    (hfresh : FreshPages heap.pages answers) (hbelow : BelowLast answers) (size : Nat) :
    ∃ heap' ok blocks', mallocRequestPages heap answers size = some (heap', ok) ∧
      Partition heap' blocks' used ∧ SameInside used heap.mem heap'.mem := by
  have hsame : ∃ heap' ok blocks', some (heap, false) = some (heap', ok) ∧
      Partition heap' blocks' used ∧ SameInside used heap.mem heap'.mem :=
    ⟨heap, false, blocks, rfl, hpart, fun _ _ _ _ => rfl⟩
  rw [mallocRequestPages]
  by_cases hpay : sizeMax - headerSize < size
  · rwa [if_pos hpay]
  rw [if_neg hpay]
  by_cases htotal : sizeMax - (pageSize - 1) < size + headerSize
  · rwa [if_pos htotal]
  rw [if_neg htotal]
  generalize (size + headerSize + pageSize - 1) / pageSize = count
  by_cases hcount : count = 0 ∨ mallocMaxChunkPages < count
  · rwa [if_pos hcount]
  rw [if_neg hcount]
  exact hpart.requestBlock_spec hfresh hbelow (Nat.pos_of_ne_zero fun h => hcount (.inl h))

end Partition

end NexOS.Libc
