import NexOS.Mem.Pmm

/-! # The life of a physical page

What the allocator's tables say about one page is its status: the state, the
reference count and the number of times the page is on the free stack. A page
is consistent when these agree. Each operation is described once, by what it
can do to the status of a page; the invariant and its consequences for whole
runs are read off that description.
-/

namespace NexOS.Mem

open List Nat

/-- What the tables and the stack say about one page. -/
structure PageStatus where
  state : PageState
  refs : Nat
  onStack : Nat

namespace PageStatus

/-- A free page is in the stack once. -/
def free : PageStatus := ⟨.free, 0, 1⟩

/-- An allocated page is not in the stack. -/
def allocated (refs : Nat) : PageStatus := ⟨.allocated, refs, 0⟩

/-- The state, the count and the stack tell the same story. -/
def Consistent (status : PageStatus) : Prop :=
  (status.state = .free ∧ status.refs = 0 ∧ status.onStack = 1) ∨
  (status.state = .allocated ∧ 1 ≤ status.refs ∧ status.onStack = 0) ∨
  (status.state = .reserved ∧ status.onStack = 0)

variable {status : PageStatus} (hstat : status.Consistent)

include hstat

lemma Consistent.eq_free_of_state (hstate : status.state = .free) : status = free := by
  obtain ⟨state, refs, onStack⟩ := status
  subst hstate
  rcases hstat with ⟨-, hrefs, hstack⟩ | ⟨hne, -⟩ | ⟨hne, -⟩
  · subst hrefs hstack
    rfl
  · cases hne
  · cases hne

lemma Consistent.eq_allocated_of_state
    (hstate : status.state = .allocated) : status = allocated status.refs ∧ 1 ≤ status.refs := by
  obtain ⟨state, refs, onStack⟩ := status
  subst hstate
  rcases hstat with ⟨hne, -⟩ | ⟨-, hrefs, hstack⟩ | ⟨hne, -⟩
  · cases hne
  · subst hstack
    exact ⟨rfl, hrefs⟩
  · cases hne

lemma Consistent.eq_free_of_onStack (hstack : status.onStack ≠ 0) : status = free := by
  rcases hstat with ⟨hfree, hrefs, hone⟩ | ⟨-, -, hzero⟩ | ⟨-, hzero⟩
  · exact Consistent.eq_free_of_state (Or.inl ⟨hfree, hrefs, hone⟩) hfree
  · exact absurd hzero hstack
  · exact absurd hzero hstack

end PageStatus

namespace Pmm

/-! ## The page index -/

variable {s s' : Pmm} {addr other : Nat} {pages rest out : List Nat} {op : PmmOp}

lemma pageSlot_eq_some {index : Nat} : s.pageSlot addr = some index ↔
      s.pageIndexFind addr = index ∧ index < pageIndexSize ∧ s.phys index = addr := by
  unfold pageSlot
  constructor
  · intro hslot
    dsimp only at hslot
    split at hslot
    · cases hslot
    next hfound =>
      cases hslot
      rw [not_or, not_not, not_le] at hfound
      exact ⟨rfl, hfound⟩
  · rintro ⟨rfl, hlt, hphys⟩
    exact if_neg (by rw [not_or, not_not, not_le]; exact ⟨hlt, hphys⟩)

lemma pageSlot_congr (hphys : s'.phys = s.phys) (addr : Nat) :
    s'.pageSlot addr = s.pageSlot addr := by
  unfold pageSlot pageIndexFind
  rw [hphys]

/-- A page that was entered into the index. Address zero marks empty slots. -/
def Tracked (s : Pmm) (physAddr : Nat) : Prop := physAddr ≠ 0 ∧ (s.pageSlot physAddr).isSome = true

lemma tracked_congr (hphys : s'.phys = s.phys) (addr : Nat) : s'.Tracked addr ↔ s.Tracked addr := by
  unfold Tracked
  rw [pageSlot_congr hphys]

/-- The place of a page in the index. -/
def slotOf (s : Pmm) (physAddr : Nat) : Nat := s.pageIndexFind physAddr

variable (htrack : s.Tracked addr)

include htrack

lemma Tracked.pageSlot : s.pageSlot addr = some (s.slotOf addr) := by
  obtain ⟨index, hslot⟩ := Option.isSome_iff_exists.mp htrack.2
  rw [hslot, slotOf, (pageSlot_eq_some.mp hslot).1]

lemma Tracked.slotOf_lt : s.slotOf addr < pageIndexSize :=
  (pageSlot_eq_some.mp htrack.pageSlot).2.1

lemma Tracked.phys_slotOf : s.phys (s.slotOf addr) = addr :=
  (pageSlot_eq_some.mp htrack.pageSlot).2.2

lemma Tracked.slotOf_inj (hother : s.Tracked other)
    (hslot : s.slotOf addr = s.slotOf other) : addr = other := by
  rw [← htrack.phys_slotOf, hslot, hother.phys_slotOf]

omit htrack

/-- The places of the index that are taken. -/
def usedSlots (s : Pmm) : Finset Nat :=
  (Finset.range pageIndexSize).filter fun index => s.phys index ≠ 0

/-- The index finds every page it holds, where it holds it. -/
structure IndexOk (s : Pmm) : Prop where
  found : ∀ index < pageIndexSize, s.phys index ≠ 0 → s.pageIndexFind (s.phys index) = index
  aligned : ∀ index, s.phys index % pageSize = 0
  blank : ∀ index, s.phys index = 0 → s.state index = .unused
  count : s.usedSlots.card = s.trackedCount
  bound : s.trackedCount ≤ maxTrackedPages

/-! ## Status and invariant -/

/-- What index and stack say about a page. -/
def status (s : Pmm) (physAddr : Nat) : PageStatus :=
  ⟨s.state (s.slotOf physAddr), s.refCount (s.slotOf physAddr), s.stack.count physAddr⟩

/-- Every tracked page is free once on the stack, allocated with references, or
reserved. -/
def PagesConsistent (s : Pmm) : Prop :=
  ∀ addr, s.Tracked addr → (s.status addr).Consistent

/-- What the allocator keeps. -/
structure Inv (s : Pmm) : Prop where
  index : s.IndexOk
  stack : ∀ addr ∈ s.stack, s.Tracked addr
  pages : s.PagesConsistent

lemma Inv.status_of_mem_stack (hs : s.Inv) (hmem : addr ∈ s.stack) : s.status addr = .free := by
  apply (hs.pages addr (hs.stack addr hmem)).eq_free_of_onStack
  exact ne_of_gt (count_pos_iff.mpr hmem)

lemma Inv.stack_nodup (hs : s.Inv) : s.stack.Nodup := by
  rw [nodup_iff_count_le_one]
  intro addr
  by_cases hmem : addr ∈ s.stack
  · have hstat := hs.status_of_mem_stack hmem
    exact le_of_eq (congrArg PageStatus.onStack hstat)
  · rw [count_eq_zero.mpr hmem]
    exact zero_le 1

/-- A page outside the stack leaves room for itself. -/
lemma Inv.stack_length_lt (hs : s.Inv) (htrack : s.Tracked addr)
    (hmem : addr ∉ s.stack) : s.stack.length < maxTrackedPages := by
  have hnodup : (addr :: s.stack).Nodup := nodup_cons.mpr ⟨hmem, hs.stack_nodup⟩
  have htracks : ∀ page ∈ (addr :: s.stack).toFinset, s.Tracked page := by
    intro page hpage
    rcases mem_cons.mp (mem_toFinset.mp hpage) with rfl | hpage
    · exact htrack
    · exact hs.stack page hpage
  have hcard : (addr :: s.stack).toFinset.card ≤ s.usedSlots.card := by
    apply Finset.card_le_card_of_injOn s.slotOf
    · intro page hpage
      have hpage' := htracks page hpage
      refine Finset.mem_coe.mpr (Finset.mem_filter.mpr ⟨Finset.mem_range.mpr hpage'.slotOf_lt, ?_⟩)
      rw [hpage'.phys_slotOf]
      exact hpage'.1
    · intro page hpage other hother hslot
      exact (htracks page hpage).slotOf_inj (htracks other hother) hslot
  rw [toFinset_card_of_nodup hnodup, length_cons, hs.index.count] at hcard
  have hbound := hs.index.bound
  omega

/-! ## What a step does to a page -/

/-- All that operation `op`, handing the pages `out` to its caller, can do to
the status of a page. -/
inductive PageStep (op : PmmOp) (out : List Nat) (physAddr : Nat) : PageStatus → PageStatus → Prop
  | kept (status : PageStatus) (hout : physAddr ∉ out) : PageStep op out physAddr status status
  | handed (hout : physAddr ∈ out) : PageStep op out physAddr .free (.allocated 1)
  | retained (refs : Nat) (hop : op = .retainPage physAddr) (hout : physAddr ∉ out) :
      PageStep op out physAddr (.allocated refs) (.allocated (refs + 1))
  | dropped (refs : Nat) (hop : op = .releasePage physAddr ∨ op = .freePage physAddr)
      (hout : physAddr ∉ out) :
      PageStep op out physAddr (.allocated (refs + 2)) (.allocated (refs + 1))
  | freed (hop : op = .releasePage physAddr ∨ op = .freePage physAddr) (hout : physAddr ∉ out) :
      PageStep op out physAddr (.allocated 1) .free
  | reserved (base size : Nat) (hop : op = .reserveRange base size) (hout : physAddr ∉ out) :
      PageStep op out physAddr .free ⟨.reserved, 0, 0⟩

lemma PageStep.consistent {before after : PageStatus}
    (hstep : PageStep op out addr before after) (hbefore : before.Consistent) :
    after.Consistent := by
  cases hstep with
  | kept => exact hbefore
  | handed => exact Or.inr (Or.inl ⟨rfl, le_refl 1, rfl⟩)
  | retained refs => exact Or.inr (Or.inl ⟨rfl, le_add_left 1 refs, rfl⟩)
  | dropped refs => exact Or.inr (Or.inl ⟨rfl, le_add_left 1 refs, rfl⟩)
  | freed => exact Or.inl ⟨rfl, rfl, rfl⟩
  | reserved => exact Or.inr (Or.inr ⟨rfl, rfl⟩)

/-- The tables move from `s` to `s'` by steps of single pages, and the index
stays as it is. -/
structure Change (op : PmmOp) (out : List Nat) (s s' : Pmm) : Prop where
  phys : s'.phys = s.phys
  trackedCount : s'.trackedCount = s.trackedCount
  blank : ∀ index, s.phys index = 0 → s'.state index = s.state index
  stack : ∀ addr ∈ s'.stack, s.Tracked addr
  outTracked : ∀ addr ∈ out, s.Tracked addr
  pages : ∀ addr, s.Tracked addr → PageStep op out addr (s.status addr) (s'.status addr)

lemma slotOf_congr (hphys : s'.phys = s.phys) : s'.slotOf = s.slotOf := by
  unfold slotOf pageIndexFind
  rw [hphys]

lemma IndexOk.change (hs : s.IndexOk) (hchg : Change op out s s') : s'.IndexOk := by
  obtain ⟨hphys, hcount, hblank, -, -, -⟩ := hchg
  refine ⟨?_, ?_, ?_, ?_, ?_⟩
  · intro index hlt hused
    have hfind : s'.pageIndexFind = s.pageIndexFind := slotOf_congr hphys
    rw [hfind, hphys]
    exact hs.found index hlt (hphys ▸ hused)
  · rw [hphys]
    exact hs.aligned
  · intro index hzero
    rw [hphys] at hzero
    rw [hblank index hzero]
    exact hs.blank index hzero
  · unfold usedSlots
    rw [hphys, hcount]
    exact hs.count
  · rw [hcount]
    exact hs.bound

/-- The invariant is kept by every change made of page steps. -/
lemma Inv.change (hs : s.Inv) (hchg : Change op out s s') : s'.Inv := by
  refine ⟨hs.index.change hchg, ?_, ?_⟩
  · intro addr hmem
    exact (tracked_congr hchg.phys addr).mpr (hchg.stack addr hmem)
  · intro addr htrack
    have htrack' := (tracked_congr hchg.phys addr).mp htrack
    exact (hchg.pages addr htrack').consistent (hs.pages addr htrack')

/-- An operation that writes nothing. -/
lemma Inv.change_refl (hs : s.Inv) (op : PmmOp) : Change op [] s s where
  phys := rfl
  trackedCount := rfl
  blank _ _ := rfl
  stack := hs.stack
  outTracked _ hmem := absurd hmem not_mem_nil
  pages _ _ := .kept _ not_mem_nil

/-! ## Writing one slot -/

lemma status_setSlot_self (s : Pmm) (addr : Nat) (state : PageState) (refs : Nat) :
    (s.setSlot (s.slotOf addr) state refs).status addr = ⟨state, refs, s.stack.count addr⟩ := by
  have hsame : (s.setSlot (s.slotOf addr) state refs).slotOf = s.slotOf := slotOf_congr rfl
  simp only [status, hsame]
  simp [setSlot]

include htrack

lemma status_setSlot_of_ne (hother : s.Tracked other)
    (hne : other ≠ addr) (state : PageState) (refs : Nat) :
    (s.setSlot (s.slotOf addr) state refs).status other = s.status other := by
  have hslot : s.slotOf other ≠ s.slotOf addr := fun heq =>
    hne (hother.slotOf_inj htrack heq)
  have hsame : (s.setSlot (s.slotOf addr) state refs).slotOf = s.slotOf := slotOf_congr rfl
  simp only [status, hsame]
  simp [setSlot, hslot]

/-- A slot that holds a page is not blank. -/
lemma setSlot_blank (state : PageState) (refs index : Nat) (hblank : s.phys index = 0) :
    (s.setSlot (s.slotOf addr) state refs).state index = s.state index := by
  have hne : index ≠ s.slotOf addr := by
    intro heq
    rw [heq, htrack.phys_slotOf] at hblank
    exact htrack.1 hblank
  simp [setSlot, hne]

/-! ## Allocation -/

lemma pageIsFree_iff : s.pageIsFree addr = true ↔
      s.state (s.slotOf addr) = .free ∧ s.refCount (s.slotOf addr) = 0 := by
  simp [pageIsFree, htrack.pageSlot]

lemma pageMarkAllocated_of_free
    (hstate : s.state (s.slotOf addr) = .free) (hrefs : s.refCount (s.slotOf addr) = 0) :
    s.pageMarkAllocated addr = some (s.setSlot (s.slotOf addr) .allocated 1) := by
  simp [pageMarkAllocated, htrack.pageSlot, hstate, hrefs]

lemma pageIsFree_setSlot_of_ne (hother : s.Tracked other)
    (hne : other ≠ addr) (state : PageState) (refs : Nat) :
    (s.setSlot (s.slotOf addr) state refs).pageIsFree other = s.pageIsFree other := by
  have hstat := status_setSlot_of_ne htrack hother hne state refs
  have hother' : (s.setSlot (s.slotOf addr) state refs).Tracked other :=
    (tracked_congr rfl other).mpr hother
  rw [Bool.eq_iff_iff, pageIsFree_iff hother, pageIsFree_iff hother']
  have hstate := congrArg PageStatus.state hstat
  have hrefs := congrArg PageStatus.refs hstat
  simp only [status] at hstate hrefs
  rw [hstate, hrefs]

omit htrack

/-- A row of pages gets a state. -/
def setSlots (pages : List Nat) (state : PageState) (refs : Nat) (s : Pmm) : Pmm :=
  pages.foldl (fun s physAddr => s.setSlot (s.slotOf physAddr) state refs) s

@[simp] lemma setSlots_phys (pages : List Nat) (state : PageState) (refs : Nat) (s : Pmm) :
    (setSlots pages state refs s).phys = s.phys := by
  induction pages generalizing s with
  | nil => rfl
  | cons page rest ih => exact ih _

@[simp] lemma setSlots_stack (pages : List Nat) (state : PageState) (refs : Nat) (s : Pmm) :
    (setSlots pages state refs s).stack = s.stack := by
  induction pages generalizing s with
  | nil => rfl
  | cons page rest ih => exact ih _

@[simp] lemma setSlots_trackedCount (pages : List Nat) (state : PageState) (refs : Nat)
    (s : Pmm) : (setSlots pages state refs s).trackedCount = s.trackedCount := by
  induction pages generalizing s with
  | nil => rfl
  | cons page rest ih => exact ih _

lemma setSlots_blank (pages : List Nat) (state : PageState) (refs : Nat) (s : Pmm)
    (htrack : ∀ addr ∈ pages, s.Tracked addr) (index : Nat)
    (hblank : s.phys index = 0) : (setSlots pages state refs s).state index = s.state index := by
  induction pages generalizing s with
  | nil => rfl
  | cons page rest ih =>
    have hrest : ∀ addr ∈ rest,
        (s.setSlot (s.slotOf page) state refs).Tracked addr := fun addr hmem =>
      (tracked_congr rfl addr).mpr (htrack addr (mem_cons_of_mem page hmem))
    have htail := ih _ hrest hblank
    exact htail.trans (setSlot_blank (htrack page mem_cons_self) state refs index hblank)

lemma status_setSlots (pages : List Nat) (state : PageState) (refs : Nat) (s : Pmm)
    (htrack : ∀ addr ∈ pages, s.Tracked addr) (addr : Nat)
    (hphys : s.Tracked addr) :
    (setSlots pages state refs s).status addr =
      if addr ∈ pages then ⟨state, refs, s.stack.count addr⟩ else s.status addr := by
  induction pages generalizing s with
  | nil => rfl
  | cons page rest ih =>
    have hpage := htrack page mem_cons_self
    have hcongr : ∀ other, (s.setSlot (s.slotOf page) state refs).Tracked other ↔
        s.Tracked other := tracked_congr rfl
    have htail := ih (s.setSlot (s.slotOf page) state refs)
      (fun other hmem => (hcongr other).mpr (htrack other (mem_cons_of_mem page hmem)))
      ((hcongr addr).mpr hphys)
    refine htail.trans ?_
    split
    next hmem =>
      rw [if_pos (mem_cons_of_mem page hmem)]
      rfl
    rename_i hmem
    by_cases heq : addr = page
    · subst heq
      rw [status_setSlot_self, if_pos mem_cons_self]
    · rw [status_setSlot_of_ne hpage hphys heq]
      simp [heq, hmem]

/-- Distinct tracked pages that the tables call free. -/
structure AllFree (s : Pmm) (pages : List Nat) : Prop where
  nodup : pages.Nodup
  tracked : ∀ addr ∈ pages, s.Tracked addr
  free : ∀ addr ∈ pages, s.pageIsFree addr = true

lemma AllFree.head {page : Nat} (hfree : s.AllFree (page :: rest)) :
    s.Tracked page ∧ s.state (s.slotOf page) = .free ∧ s.refCount (s.slotOf page) = 0 := by
  have hpage := hfree.tracked page mem_cons_self
  exact ⟨hpage, (pageIsFree_iff hpage).mp (hfree.free page mem_cons_self)⟩

lemma AllFree.tail {page : Nat} (hfree : s.AllFree (page :: rest)) (state : PageState)
    (refs : Nat) : (s.setSlot (s.slotOf page) state refs).AllFree rest := by
  obtain ⟨hnot, hrest⟩ := nodup_cons.mp hfree.nodup
  refine ⟨hrest, ?_, ?_⟩
  · intro other hother
    exact (tracked_congr rfl other).mpr (hfree.tracked other (mem_cons_of_mem page hother))
  · intro other hother
    have hne : other ≠ page := fun heq => hnot (heq ▸ hother)
    rw [pageIsFree_setSlot_of_ne hfree.head.1
      (hfree.tracked other (mem_cons_of_mem page hother)) hne]
    exact hfree.free other (mem_cons_of_mem page hother)

/-- Marking free pages succeeds. -/
lemma AllFree.markAllocatedAll_eq (hfree : s.AllFree pages) :
    markAllocatedAll pages s = (setSlots pages .allocated 1 s, true) := by
  induction pages generalizing s with
  | nil => rfl
  | cons page rest ih =>
    obtain ⟨hpage, hstate, hrefs⟩ := hfree.head
    simp only [markAllocatedAll, pageMarkAllocated_of_free hpage hstate hrefs]
    exact ih (hfree.tail .allocated 1)

/-- A loop that writes the slot of each free page it meets. -/
lemma AllFree.foldl_eq (hfree : s.AllFree pages) {write : Pmm → Nat → Pmm} {state : PageState}
    {refs : Nat} (hwrite : ∀ (s : Pmm) (addr : Nat), s.Tracked addr →
      s.state (s.slotOf addr) = .free →
      write s addr = s.setSlot (s.slotOf addr) state refs) :
    pages.foldl write s = setSlots pages state refs s := by
  induction pages generalizing s with
  | nil => rfl
  | cons page rest ih =>
    obtain ⟨hpage, hstate, -⟩ := hfree.head
    rw [foldl_cons, hwrite s page hpage hstate]
    exact ih (hfree.tail state refs)

lemma Inv.pageIsFree_of_mem_stack (hs : s.Inv) (hmem : addr ∈ s.stack) :
    s.pageIsFree addr = true := by
  have hstat := hs.status_of_mem_stack hmem
  rw [pageIsFree_iff (hs.stack addr hmem)]
  exact ⟨congrArg PageStatus.state hstat, congrArg PageStatus.refs hstat⟩

/-- Pages on the stack are free. -/
lemma Inv.allFree (hs : s.Inv) (hperm : s.stack.Perm (pages ++ rest)) : s.AllFree pages := by
  have hmem : ∀ addr ∈ pages, addr ∈ s.stack := fun addr hpage =>
    hperm.mem_iff.mpr (mem_append_left rest hpage)
  have hnodup : (pages ++ rest).Nodup := hperm.nodup_iff.mp hs.stack_nodup
  exact ⟨(nodup_append.mp hnodup).1, fun addr hpage => hs.stack addr (hmem addr hpage),
    fun addr hpage => hs.pageIsFree_of_mem_stack (hmem addr hpage)⟩

lemma AllFree.withStack (hfree : s.AllFree pages) (stack : List Nat) :
    ({ s with stack := stack } : Pmm).AllFree pages :=
  ⟨hfree.nodup, fun addr hpage => (tracked_congr rfl addr).mpr (hfree.tracked _ hpage), hfree.free⟩

/-- Taking pages off the stack and giving them all the same state and count. -/
lemma Inv.takeOff (hs : s.Inv) {state : PageState} {refs : Nat}
    (hperm : s.stack.Perm (pages ++ rest)) (hout : out ⊆ pages)
    (hstep : ∀ addr ∈ pages, PageStep op out addr .free ⟨state, refs, 0⟩) :
    Change op out s (setSlots pages state refs { s with stack := rest }) := by
  have hnodup : (pages ++ rest).Nodup := hperm.nodup_iff.mp hs.stack_nodup
  have hmem : ∀ addr ∈ pages, addr ∈ s.stack := fun addr hpage =>
    hperm.mem_iff.mpr (mem_append_left rest hpage)
  have hcongr : ∀ addr, ({ s with stack := rest } : Pmm).Tracked addr ↔
      s.Tracked addr := tracked_congr rfl
  have htrack := ((hs.allFree hperm).withStack rest).tracked
  refine ⟨?_, ?_, ?_, ?_, ?_, ?_⟩
  · exact setSlots_phys ..
  · exact setSlots_trackedCount ..
  · exact setSlots_blank pages state refs _ htrack
  · intro addr hphys
    rw [setSlots_stack] at hphys
    exact hs.stack addr (hperm.mem_iff.mpr (mem_append_right pages hphys))
  · intro addr hphys
    exact hs.stack addr (hmem addr (hout hphys))
  · intro addr hphys
    rw [status_setSlots pages state refs _ htrack addr ((hcongr addr).mpr hphys)]
    by_cases hpage : addr ∈ pages
    · have hrest : addr ∉ rest := fun hrest =>
        (nodup_append.mp hnodup).2.2 addr hpage addr hrest rfl
      rw [if_pos hpage, hs.status_of_mem_stack (hmem addr hpage), count_eq_zero.mpr hrest]
      exact hstep addr hpage
    · have hcounts : rest.count addr = s.stack.count addr := by
        rw [hperm.count_eq, count_append, count_eq_zero.mpr hpage, zero_add]
      have hsame : ({ s with stack := rest } : Pmm).status addr = s.status addr := by
        simp only [status, hcounts]
        rfl
      rw [if_neg hpage, hsame]
      exact .kept _ fun hmem => hpage (hout hmem)

/-- Taking pages off the stack and marking them hands exactly these pages out. -/
lemma Inv.allocate (hs : s.Inv) (op : PmmOp) (hperm : s.stack.Perm (pages ++ rest)) :
    (markAllocatedAll pages { s with stack := rest }).2 = true ∧
      Change op pages s (markAllocatedAll pages { s with stack := rest }).1 := by
  rw [((hs.allFree hperm).withStack rest).markAllocatedAll_eq]
  exact ⟨rfl, hs.takeOff hperm (List.Subset.refl pages) fun addr hpage => .handed hpage⟩

end Pmm

end NexOS.Mem
