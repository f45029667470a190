import NexOS.Mem.PmmSteps

/-! # Runs of the page allocator

The allocator is filled from the boot memory map and then serves any sequence
of operations. The tables stay consistent in a run exactly as long as no
allocation of several pages below a limit finds a run of free pages.
-/

namespace NexOS.Mem

open Function List Nat

namespace Pmm

/-! ## Initialisation -/

variable {s : Pmm} {addr refs : Nat}

lemma IndexOk.slotOf_eq (hs : s.IndexOk) {index : Nat} (hnz : addr ≠ 0)
    (hlt : index < pageIndexSize) (hphys : s.phys index = addr) :
    s.Tracked addr ∧ s.slotOf addr = index := by
  have hfind : s.pageIndexFind addr = index := by
    rw [← hphys]
    exact hs.found index hlt (hphys ▸ hnz)
  exact ⟨⟨hnz, Option.isSome_iff_exists.mpr ⟨index,
    pageSlot_eq_some.mpr ⟨hfind, hlt, hphys⟩⟩⟩, hfind⟩

lemma mem_usedSlots {index : Nat} :
    index ∈ s.usedSlots ↔ index < pageIndexSize ∧ s.phys index ≠ 0 := by
  rw [usedSlots, Finset.mem_filter, Finset.mem_range]

/-- The allocator with one more free page. -/
def pageAdded (s : Pmm) (physAddr : Nat) : Pmm :=
  { ({ s with phys := update s.phys (s.slotOf physAddr) physAddr } : Pmm).setSlot
      (s.slotOf physAddr) .free 0 with
    stack := s.stack ++ [physAddr]
    trackedCount := s.trackedCount + 1 }

@[simp] lemma pageAdded_phys (s : Pmm) (addr : Nat) : (s.pageAdded addr).phys =
    update s.phys (s.slotOf addr) addr := rfl

@[simp] lemma pageAdded_state (s : Pmm) (addr : Nat) : (s.pageAdded addr).state =
    update s.state (s.slotOf addr) .free := rfl

@[simp] lemma pageAdded_stack (s : Pmm) (addr : Nat) :
    (s.pageAdded addr).stack = s.stack ++ [addr] := rfl

lemma status_pageAdded (s : Pmm) (addr other : Nat) : (s.pageAdded addr).status other =
    ⟨update s.state (s.slotOf addr) .free ((s.pageAdded addr).slotOf other),
      update s.refCount (s.slotOf addr) 0 ((s.pageAdded addr).slotOf other),
      (s.stack ++ [addr]).count other⟩ := rfl

lemma IndexOk.found_pageAdded (hs : s.IndexOk) (hslot : s.slotOf addr < pageIndexSize)
    (hempty : s.phys (s.slotOf addr) = 0) (index : Nat) (hindex : index < pageIndexSize)
    (hused : (s.pageAdded addr).phys index ≠ 0) :
    (s.pageAdded addr).pageIndexFind ((s.pageAdded addr).phys index) = index := by
  by_cases heq : index = s.slotOf addr
  · subst heq
    have hself : (s.pageAdded addr).phys (s.slotOf addr) = addr := update_self ..
    rw [hself]
    exact Probing.search_update_self _ _ hempty (Nat.ne_of_lt hslot)
  · have hother : (s.pageAdded addr).phys index = s.phys index := update_of_ne heq ..
    rw [hother] at hused ⊢
    have hfound := hs.found index hindex hused
    refine (Probing.search_update_of_found hused _ hempty addr _ _ ?_ ?_).trans hfound
    · exact congrArg s.phys hfound
    · exact hfound.trans_ne (Nat.ne_of_lt hindex)

lemma IndexOk.pageAdded (hs : s.IndexOk) (hnz : addr ≠ 0)
    (halign : addr % pageSize = 0) (hroom : s.trackedCount < maxTrackedPages)
    (hslot : s.slotOf addr < pageIndexSize) (hempty : s.phys (s.slotOf addr) = 0) :
    (s.pageAdded addr).IndexOk where
  found := hs.found_pageAdded hslot hempty
  aligned index := by
    by_cases heq : index = s.slotOf addr
    · simp [heq, halign]
    · simp [heq, hs.aligned index]
  blank index hzero := by
    by_cases heq : index = s.slotOf addr
    · simp [heq, hnz] at hzero
    · rw [pageAdded_phys, update_of_ne heq] at hzero
      rw [pageAdded_state, update_of_ne heq]
      exact hs.blank index hzero
  count := by
    have hslots : (s.pageAdded addr).usedSlots = insert (s.slotOf addr) s.usedSlots := by
      ext index
      by_cases heq : index = s.slotOf addr
      · simp [mem_usedSlots, heq, hslot, hnz]
      · simp [mem_usedSlots, heq]
    have hnew : s.slotOf addr ∉ s.usedSlots := by simp [mem_usedSlots, hempty]
    rw [hslots, Finset.card_insert_of_notMem hnew, hs.count]
    rfl
  bound := hroom

lemma Inv.pageAdded (hs : s.Inv) (hnz : addr ≠ 0) (halign : addr % pageSize = 0)
    (hroom : s.trackedCount < maxTrackedPages) (hslot : s.slotOf addr < pageIndexSize)
    (hempty : s.phys (s.slotOf addr) = 0) : (s.pageAdded addr).Inv := by
  have hindex := hs.index.pageAdded hnz halign hroom hslot hempty
  have hself := hindex.slotOf_eq hnz hslot (by simp)
  -- Pages that were tracked keep their slots.
  have hkept : ∀ other, s.Tracked other →
      (s.pageAdded addr).Tracked other ∧ s.slotOf other ≠ s.slotOf addr ∧
        (s.pageAdded addr).slotOf other = s.slotOf other := by
    intro other hother
    have hne : s.slotOf other ≠ s.slotOf addr := by
      intro heq
      have hphys := hother.phys_slotOf
      rw [heq, hempty] at hphys
      exact hother.1 hphys.symm
    have hslots := hindex.slotOf_eq hother.1 hother.slotOf_lt (by simp [hne, hother.phys_slotOf])
    exact ⟨hslots.1, hne, hslots.2⟩
  have hfresh : addr ∉ s.stack := by
    intro hmem
    exact (hkept addr (hs.stack addr hmem)).2.1 rfl
  refine ⟨hindex, ?_, ?_⟩
  · intro other hother
    rw [pageAdded_stack, mem_append, mem_singleton] at hother
    rcases hother with hstack | rfl
    · exact (hkept other (hs.stack other hstack)).1
    · exact hself.1
  intro other hother
  by_cases heq : other = addr
  · subst heq
    have hstat : (s.pageAdded other).status other = .free := by
      rw [status_pageAdded, hself.2]
      simp [count_eq_zero.mpr hfresh, PageStatus.free]
    rw [hstat]
    exact Or.inl ⟨rfl, rfl, rfl⟩
  have hother' : s.Tracked other := by
    have hphys := hother.phys_slotOf
    by_cases hslots : (s.pageAdded addr).slotOf other = s.slotOf addr
    · rw [hslots, pageAdded_phys, update_self] at hphys
      exact absurd hphys.symm heq
    · rw [pageAdded_phys, update_of_ne hslots] at hphys
      exact (hs.index.slotOf_eq hother.1 hother.slotOf_lt hphys).1
  obtain ⟨-, hne, hslots⟩ := hkept other hother'
  have hsame : (s.pageAdded addr).status other = s.status other := by
    rw [status_pageAdded, hslots]
    simp [status, hne, Ne.symm heq]
  rw [hsame]
  exact hs.pages other hother'

lemma pageIndexAdd_eq {added : Pmm} (hadd : s.pageIndexAdd addr = some added) :
    s.slotOf addr < pageIndexSize ∧ s.phys (s.slotOf addr) = 0 ∧
      { added with
        stack := added.stack ++ [addr]
        trackedCount := added.trackedCount + 1 } = s.pageAdded addr := by
  unfold pageIndexAdd at hadd
  dsimp only at hadd
  split at hadd
  · cases hadd
  next hguard =>
    rw [not_or, not_not, not_le] at hguard
    cases hadd
    exact ⟨hguard.1, hguard.2, rfl⟩

lemma Inv.withDropped (hs : s.Inv) (droppedCount : Nat) :
    ({ s with droppedCount := droppedCount } : Pmm).Inv :=
  ⟨⟨hs.index.found, hs.index.aligned, hs.index.blank, hs.index.count, hs.index.bound⟩, hs.stack,
    hs.pages⟩

/-- What the first tables have, and adding a page and counting dropped ones keeps. -/
structure KeptByInit (motive : Pmm → Prop) : Prop where
  boot : motive boot
  dropped : ∀ s droppedCount, motive s → motive { s with droppedCount := droppedCount }
  added : ∀ s addr, motive s → addr ≠ 0 → addr % pageSize = 0 →
    s.trackedCount < maxTrackedPages → s.slotOf addr < pageIndexSize →
    s.phys (s.slotOf addr) = 0 → motive (s.pageAdded addr)

section

variable {motive : Pmm → Prop} (hkept : KeptByInit motive)

include hkept

lemma KeptByInit.addRegion (hs : motive s) (kernelBase kernelEnd regionBase n : Nat)
    (hbase : 0x100000 ≤ regionBase) (halign : regionBase % pageSize = 0) :
    motive (addRegion kernelBase kernelEnd regionBase n s) := by
  induction n generalizing s with
  | zero => exact hs
  | succ n ih =>
    unfold Pmm.addRegion
    dsimp only
    split
    · exact ih hs
    split
    · exact hkept.dropped s _ hs
    next hroom =>
      split
      · exact ih (hkept.dropped s _ hs)
      next added hadd =>
        obtain ⟨hslot, hempty, hadded⟩ := pageIndexAdd_eq hadd
        rw [hadded]
        refine ih (hkept.added s _ hs ?_ ?_ (not_le.mp hroom) hslot hempty)
        · omega
        · rw [add_mul_mod_self_right, halign]

omit hkept in
lemma alignUp_mod (value : Nat) : alignUp value % pageSize = 0 := mul_mod_left ..

lemma KeptByInit.addEntry (hs : motive s) (kernelBase kernelEnd : Nat) (entry : MemmapEntry) :
    motive (addEntry kernelBase kernelEnd s entry) := by
  unfold Pmm.addEntry
  split
  · exact hs
  split
  · exact hs
  next rawEnd _ =>
    dsimp only
    split
    · exact hs
    split
    · exact hkept.dropped s _ hs
    have halign : max (alignUp entry.base) 0x100000 % pageSize = 0 := by
      rcases le_total (alignUp entry.base) 0x100000 with hle | hle
      · rw [max_eq_right hle]
        rfl
      · rw [max_eq_left hle, alignUp_mod]
    refine hkept.addRegion ?_ _ _ _ _ (le_max_right ..) halign
    split
    · exact hkept.dropped s _ hs
    · exact hs

lemma KeptByInit.init (memmap : List MemmapEntry) (kernelPhysAddr kernelPhysSize : Nat) :
    motive (Pmm.boot.init memmap kernelPhysAddr kernelPhysSize) := by
  unfold Pmm.init
  split
  · exact hkept.boot
  next rawEnd _ =>
    induction memmap using List.reverseRecOn with
    | nil => exact hkept.boot
    | append_singleton entries entry ih =>
      rw [foldl_append]
      exact hkept.addEntry ih _ _ entry

end

lemma boot_inv : boot.Inv where
  index :=
    { found := fun _ _ hused => absurd rfl hused
      aligned := fun _ => rfl
      blank := fun _ _ => rfl
      count := by simp [usedSlots, boot]
      bound := zero_le _ }
  stack _ hmem := absurd hmem not_mem_nil
  pages addr htrack := absurd htrack.phys_slotOf.symm htrack.1

lemma init_inv (memmap : List MemmapEntry) (kernelPhysAddr kernelPhysSize : Nat) :
    (boot.init memmap kernelPhysAddr kernelPhysSize).Inv :=
  KeptByInit.init ⟨boot_inv, fun _ droppedCount hs => hs.withDropped droppedCount,
    fun _ _ hs => hs.pageAdded⟩ memmap kernelPhysAddr kernelPhysSize

/-- The index holds no other pages than those on the stack. -/
lemma keptByInit_onStack :
    KeptByInit fun s => ∀ index, s.phys index ≠ 0 → s.phys index ∈ s.stack where
  boot _ hused := absurd rfl hused
  dropped _ _ hs := hs
  added s addr hs _ _ _ _ _ index hused := by
    by_cases heq : index = s.slotOf addr
    · simp [heq]
    · rw [pageAdded_phys, update_of_ne heq] at hused ⊢
      exact mem_append_left _ (hs index hused)

/-- The index is right about an address: it has the slot of a page that was added, and none for
any other address. -/
def Locates (s : Pmm) (physAddr : Nat) : Prop :=
  match s.pageSlot physAddr with
  | some index => physAddr ∈ s.stack ∧ index < pageIndexSize ∧ s.phys index = physAddr
  | none => physAddr ∉ s.stack

/-- Half of the slots are always empty, and the search for address zero ends at one of them. -/
lemma IndexOk.pageSlot_zero (hs : s.IndexOk) : (s.pageSlot 0).isSome = true := by
  obtain ⟨slot, hslot, hempty⟩ : ∃ slot ∈ Finset.range pageIndexSize, slot ∉ s.usedSlots := by
    refine Finset.exists_mem_notMem_of_card_lt_card ?_
    rw [hs.count, Finset.card_range]
    exact hs.bound.trans_lt (by decide)
  rw [Finset.mem_range] at hslot
  have hphys : s.phys slot = 0 := by
    by_contra hused
    exact hempty (mem_usedSlots.mpr ⟨hslot, hused⟩)
  have hfound := @Probing.search_lt _ _ pageIndexSize 0 s.phys 0 _ _ _ hphys slot.zero_le hslot
    (zero_add _)
  exact Option.isSome_iff_exists.mpr
    ⟨_, pageSlot_eq_some.mpr ⟨rfl, hfound.1, or_self_iff.mp hfound.2⟩⟩

/-- After `pmm_init` the lookup is right about every address but zero, and pages that were added
have slots of their own. -/
theorem init_locates_iff (memmap : List MemmapEntry)
    (kernelPhysAddr kernelPhysSize physAddr : Nat) :
    let s := boot.init memmap kernelPhysAddr kernelPhysSize
    (s.Locates physAddr ↔ physAddr ≠ 0) ∧ (physAddr ∈ s.stack → ∀ other ∈ s.stack,
      s.pageIndexFind physAddr = s.pageIndexFind other → physAddr = other) := by
  intro s
  have hs : s.Inv := init_inv ..
  refine ⟨?_, fun hmem other hother => (hs.stack _ hmem).slotOf_inj (hs.stack _ hother)⟩
  unfold Locates
  constructor
  · rintro hlocates rfl
    obtain ⟨index, hslot⟩ := Option.isSome_iff_exists.mp hs.index.pageSlot_zero
    rw [hslot] at hlocates
    exact (hs.stack 0 hlocates.1).1 rfl
  intro hnz
  split
  next index hslot =>
    obtain ⟨-, hlt, rfl⟩ := pageSlot_eq_some.mp hslot
    exact ⟨keptByInit_onStack.init _ _ _ index hnz, hlt, rfl⟩
  next hnone =>
    intro hmem
    have htrack := (hs.stack physAddr hmem).2
    rw [hnone] at htrack
    cases htrack

/-- One page is added, and the lookup of address zero finds an empty slot. -/
theorem init_not_locates_zero :
    let s := boot.init [⟨0x100000, 0x1000, memmapUsable⟩] 0x200000 0x1000
    s.stack = [0x100000] ∧ s.pageSlot 0 = some 0 ∧ ¬s.Locates 0 := by
  intro s
  have hslot : s.stack = [0x100000] ∧ s.pageSlot 0 = some 0 := by decide +kernel
  refine ⟨hslot.1, hslot.2, fun hlocates => ?_⟩
  rw [Locates, hslot.2, hslot.1] at hlocates
  exact absurd hlocates.1 (by decide)

/-! ## Runs -/

/-- The operation does not take a run of several free pages below a limit. -/
def TakesNoLowRun (s : Pmm) : PmmOp → Prop
  | .allocContiguousBelow pageCount maxPhysExclusive => ¬ s.HasLowRun pageCount maxPhysExclusive
  | _ => True

/-- All that an operation does to the pages. -/
lemma Inv.step_change (hs : s.Inv) (op : PmmOp) (hop : s.TakesNoLowRun op) :
    Change op (s.handedOut op) s (s.step op).2 := by
  cases op with
  | allocPage => exact hs.hands_allocPage _
  | allocPageBelow limit => exact hs.hands_allocPageBelow _ limit
  | allocContiguous pageCount => exact hs.hands_allocContiguous _ pageCount
  | allocContiguousBelow pageCount limit =>
    exact hs.hands_allocContiguousBelow _ pageCount limit hop
  | retainPage addr => exact hs.change_retainPage addr
  | releasePage addr => exact hs.change_releasePage (Or.inl rfl)
  | freePage addr => exact hs.change_releasePage (Or.inr rfl)
  | reserveRange base size => exact hs.change_reserveRange base size

/-- Every operation of the sequence meets the condition when it is its turn. -/
def RunTakesNoLowRun (s : Pmm) (ops : List PmmOp) : Prop :=
  GuardedRuns.RunFits (fun s op => (s.step op).2) TakesNoLowRun s ops

lemma run_cons (s : Pmm) (op : PmmOp) (rest : List PmmOp) :
    s.run (op :: rest) = (s.step op).2.run rest := rfl

lemma runTakesNoLowRun_append (s : Pmm) (first second : List PmmOp) :
    s.RunTakesNoLowRun (first ++ second) ↔
      s.RunTakesNoLowRun first ∧ (s.run first).RunTakesNoLowRun second :=
  GuardedRuns.runFits_append

variable (hs : s.Inv)

include hs

lemma Inv.run (ops : List PmmOp) (hops : s.RunTakesNoLowRun ops) : (s.run ops).Inv :=
  GuardedRuns.run_preserves Inv (fun _ op hs hop => hs.change (hs.step_change op hop)) hs hops

/-- The index is only read. -/
lemma Inv.run_phys (ops : List PmmOp) (hops : s.RunTakesNoLowRun ops) :
    (s.run ops).phys = s.phys := by
  induction ops generalizing s with
  | nil => rfl
  | cons op rest ih =>
    have hchg := hs.step_change op hops.1
    rw [run_cons, ih (hs.change hchg) hops.2, hchg.phys]

/-- The tables stay consistent for exactly as long as the condition is met. -/
lemma Inv.pagesConsistent_iff (ops : List PmmOp) :
    (∀ done rest, ops = done ++ rest → (s.run done).PagesConsistent) ↔ s.RunTakesNoLowRun ops := by
  constructor
  · intro hcons
    induction ops generalizing s with
    | nil => trivial
    | cons op rest ih =>
      -- The first operation that takes a low run leaves an inconsistent page.
      have hop : s.TakesNoLowRun op := by
        have hfirst := hcons [op] rest rfl
        cases op with
        | allocContiguousBelow pageCount limit =>
          exact fun hlow => hs.not_pagesConsistent_of_run hlow hfirst
        | _ => trivial
      refine ⟨hop, ih (hs.change (hs.step_change op hop)) ?_⟩
      intro done later hsplit
      exact hcons (op :: done) later (by rw [hsplit, cons_append])
  · rintro hops done rest rfl
    exact (hs.run done ((runTakesNoLowRun_append s done rest).mp hops).1).pages

omit hs

/-- A page in use stays in use until it is released. -/
lemma PageStep.allocated_of_not_releases {op : PmmOp} {out : List Nat} {after : PageStatus}
    (hstep : PageStep op out addr (.allocated refs) after) (hop : ¬ Releases op addr) :
    addr ∉ out ∧ ∃ refs', after = .allocated refs' := by
  generalize hbefore : PageStatus.allocated refs = before at hstep
  cases hstep with
  | kept _ hout => exact ⟨hout, refs, hbefore.symm⟩
  | handed => cases hbefore
  | retained refs' _ hout => exact ⟨hout, refs' + 1, rfl⟩
  | dropped _ hrel => exact absurd hrel hop
  | freed hrel => exact absurd hrel hop
  | reserved => cases hbefore

include hs

lemma Inv.allocated_run (htrack : s.Tracked addr)
    (hstat : s.status addr = .allocated refs) (ops : List PmmOp)
    (hops : s.RunTakesNoLowRun ops) (hkeeps : ∀ op ∈ ops, ¬ Releases op addr) :
    ∃ refs', (s.run ops).status addr = .allocated refs' := by
  induction ops generalizing s refs with
  | nil => exact ⟨refs, hstat⟩
  | cons op rest ih =>
    have hchg := hs.step_change op hops.1
    have hstep := hchg.pages addr htrack
    rw [hstat] at hstep
    obtain ⟨-, refs', hafter⟩ := hstep.allocated_of_not_releases (hkeeps op mem_cons_self)
    exact ih (hs.change hchg) ((tracked_congr hchg.phys addr).mpr htrack) hafter
      hops.2 fun later hlater => hkeeps later (mem_cons_of_mem op hlater)

/-- The status right after a page is handed out. -/
lemma Inv.status_handedOut {op : PmmOp} (hop : s.TakesNoLowRun op) (hout : addr ∈ s.handedOut op) :
    s.Tracked addr ∧ s.status addr = .free ∧ (s.step op).2.status addr = .allocated 1 := by
  have hchg := hs.step_change op hop
  have htrack := hchg.outTracked addr hout
  have hstep := hchg.pages addr htrack
  generalize s.status addr = before at hstep ⊢
  generalize (s.step op).2.status addr = after at hstep ⊢
  cases hstep with
  | handed => exact ⟨htrack, rfl, rfl⟩
  | kept _ hnot => exact absurd hout hnot
  | retained _ _ hnot => exact absurd hout hnot
  | dropped _ _ hnot => exact absurd hout hnot
  | freed _ hnot => exact absurd hout hnot
  | reserved _ _ _ hnot => exact absurd hout hnot

lemma Inv.release_of_handedOut_twice {first second : PmmOp} {between : List PmmOp}
    (hops : s.RunTakesNoLowRun (first :: between ++ [second]))
    (hfirst : addr ∈ s.handedOut first)
    (hsnd : addr ∈ (s.run (first :: between)).handedOut second) :
    ∃ op ∈ between, Releases op addr := by
  by_contra hnone
  push Not at hnone
  obtain ⟨⟨hop, hbetween⟩, hlast, -⟩ := (runTakesNoLowRun_append s (first :: between) _).mp hops
  have hchg := hs.step_change first hop
  obtain ⟨htrack, -, halloc⟩ := hs.status_handedOut hop hfirst
  obtain ⟨refs, hstill⟩ := (hs.change hchg).allocated_run
    ((tracked_congr hchg.phys addr).mpr htrack) halloc between hbetween hnone
  have hinv := (hs.change hchg).run between hbetween
  obtain ⟨-, hfree, -⟩ := hinv.status_handedOut hlast hsnd
  rw [hstill] at hfree
  cases hfree

/-! ## Giving back a page -/

lemma Inv.refCountOf_eq (htrack : s.Tracked addr) : s.refCountOf addr = (s.status addr).refs := by
  have halign := hs.index.aligned (s.slotOf addr)
  rw [htrack.phys_slotOf] at halign
  simp [refCountOf, halign, htrack.pageSlot, status]

lemma Inv.releasePage_allocated (htrack : s.Tracked addr)
    (hstat : s.status addr = .allocated (refs + 1)) :
    (s.releasePage addr).1 = true ∧ (s.releasePage addr).2.status addr =
        if refs = 0 then .free else .allocated refs := by
  have halign := hs.index.aligned (s.slotOf addr)
  rw [htrack.phys_slotOf] at halign
  have hstate : s.state (s.slotOf addr) = .allocated := congrArg PageStatus.state hstat
  have hrefs : s.refCount (s.slotOf addr) = refs + 1 := congrArg PageStatus.refs hstat
  have hzero : s.stack.count addr = 0 := congrArg PageStatus.onStack hstat
  have hroom := hs.stack_length_lt htrack (count_eq_zero.mp hzero)
  unfold releasePage
  simp only [halign, htrack.pageSlot, hstate, hrefs]
  cases refs with
  | zero =>
    rw [if_neg (not_le.mpr hroom)]
    refine ⟨rfl, ?_⟩
    have hself := status_setSlot_self ({ s with stack := s.stack ++ [addr] } : Pmm) addr .free 0
    refine hself.trans ?_
    simp [hzero, PageStatus.free]
  | succ refs =>
    rw [setRefCount_eq hstate]
    refine ⟨rfl, (status_setSlot_self s addr .allocated _).trans ?_⟩
    simp [hzero, PageStatus.allocated]

/-- As many releases as a page has references put it back on the stack. -/
lemma Inv.run_releasePage (htrack : s.Tracked addr) (hstate : (s.status addr).state ≠ .reserved) :
    (s.run (List.replicate (s.refCountOf addr) (.releasePage addr))).status addr = .free := by
  rw [hs.refCountOf_eq htrack]
  generalize hrefs : (s.status addr).refs = refs
  induction refs generalizing s with
  | zero =>
    rcases hs.pages addr htrack with ⟨hfree, -, -⟩ | ⟨-, hpos, -⟩ | ⟨hrsv, -⟩
    · exact (hs.pages addr htrack).eq_free_of_state hfree
    · omega
    · exact absurd hrsv hstate
  | succ refs ih =>
    have hstat : s.status addr = .allocated (refs + 1) := by
      rcases hs.pages addr htrack with ⟨-, hzero, -⟩ | ⟨halloc, -, -⟩ | ⟨hrsv, -⟩
      · omega
      · exact hrefs ▸ ((hs.pages addr htrack).eq_allocated_of_state halloc).1
      · exact absurd hrsv hstate
    have hchg : Change (.releasePage addr) [] s (s.releasePage addr).2 :=
      hs.change_releasePage (Or.inl rfl)
    obtain ⟨-, hafter⟩ := hs.releasePage_allocated htrack hstat
    apply ih (hs.change hchg) ((tracked_congr hchg.phys addr).mpr htrack)
    · rw [hafter]
      split
      · exact nofun
      · exact nofun
    · rw [hafter]
      split
      next hzero => exact hzero.symm
      · rfl

omit hs

/-- After boot, the tables are consistent throughout a run if and only if no
operation of the run takes several free pages below a limit. In such a run no
page is handed out twice without a release in between, and every page that was
handed out comes back when its references are released. -/
theorem init_run_pagesConsistent_iff (memmap : List MemmapEntry)
    (kernelPhysAddr kernelPhysSize : Nat) (ops : List PmmOp) :
    let s := boot.init memmap kernelPhysAddr kernelPhysSize
    ((∀ done rest, ops = done ++ rest → (s.run done).PagesConsistent) ↔ s.RunTakesNoLowRun ops) ∧
    (s.RunTakesNoLowRun ops → (∀ before first between second after physAddr,
        ops = before ++ (first :: between ++ [second]) ++ after →
        physAddr ∈ (s.run before).handedOut first →
        physAddr ∈ (s.run (before ++ first :: between)).handedOut second →
        ∃ op ∈ between, Releases op physAddr) ∧
      (∀ before op between after physAddr, ops = before ++ op :: between ++ after →
        physAddr ∈ (s.run before).handedOut op →
        let now := s.run (before ++ op :: between)
        (now.status physAddr).state ≠ .reserved →
        physAddr ∈
          (now.run (List.replicate (now.refCountOf physAddr) (.releasePage physAddr))).stack)) := by
  intro s
  have hs : s.Inv := init_inv memmap kernelPhysAddr kernelPhysSize
  refine ⟨hs.pagesConsistent_iff ops, fun hops => ⟨?_, ?_⟩⟩
  · rintro before first between second after physAddr rfl hfirst hsnd
    have hprefix := ((runTakesNoLowRun_append ..).mp hops).1
    obtain ⟨hbefore, hmid⟩ := (runTakesNoLowRun_append ..).mp hprefix
    rw [Pmm.run, GuardedRuns.run_append] at hsnd
    exact (hs.run before hbefore).release_of_handedOut_twice hmid hfirst hsnd
  intro before op between after physAddr hsplit hout now hstate
  rw [hsplit] at hops
  have hprefix := ((runTakesNoLowRun_append ..).mp hops).1
  obtain ⟨hbefore, hop, -⟩ := (runTakesNoLowRun_append ..).mp hprefix
  have hnow : now.Inv := hs.run _ hprefix
  obtain ⟨htrack, -, -⟩ := (hs.run before hbefore).status_handedOut hop hout
  have hphys : now.phys = (s.run before).phys := by
    rw [hs.run_phys _ hprefix, hs.run_phys _ hbefore]
  have hfree := hnow.run_releasePage ((tracked_congr hphys physAddr).mpr htrack) hstate
  have hcount : (now.run (List.replicate (now.refCountOf physAddr)
      (.releasePage physAddr))).stack.count physAddr = 1 := congrArg PageStatus.onStack hfree
  exact count_pos_iff.mp (hcount ▸ one_pos)

/-- An allocator over two pages. -/
def twoPages : Pmm := boot.init [⟨0x100000, 0x2000, memmapUsable⟩] 0x200000 0x1000

lemma twoPages_inv : twoPages.Inv := by
  exact init_inv ..

lemma twoPages_stack : twoPages.stack = [0x101000, 0x100000] := by decide +kernel

/-- Allocated together, the two pages are counted and off the stack but still
called free, so that the release of either is refused. -/
theorem low_run_not_released :
    twoPages.handedOut (.allocContiguousBelow 2 0x100000000) = [0x100000, 0x101000] ∧
      (twoPages.run [.allocContiguousBelow 2 0x100000000]).status 0x100000 = ⟨.free, 1, 0⟩ ∧
      ((twoPages.run [.allocContiguousBelow 2 0x100000000]).releasePage 0x100000).1 = false ∧
      ¬ (twoPages.run [.allocContiguousBelow 2 0x100000000]).PagesConsistent := by
  have hrun : ∀ s : Pmm, s.run [.allocContiguousBelow 2 0x100000000] =
      (s.allocContiguousBelow 2 0x100000000).2 := fun _ => rfl
  have hlow : twoPages.HasLowRun 2 0x100000000 := by
    refine ⟨by decide, by decide, 0, by rw [twoPages_stack]; decide, ?_, ?_⟩
    · intro i hi
      obtain rfl : i = 0 := by omega
      decide
    · decide
  have hout : twoPages.handedOut (.allocContiguousBelow 2 0x100000000) = [0x100000, 0x101000] := by
    decide +kernel
  have hmem : 0x100000 ∈ twoPages.handedOut (.allocContiguousBelow 2 0x100000000) := by
    exact mem_cons_self
  obtain ⟨htrack, hstat⟩ := twoPages_inv.status_of_run hlow hmem
  rw [hrun]
  refine ⟨hout, hstat, ?_, twoPages_inv.not_pagesConsistent_of_run hlow⟩
  rw [htrack.releasePage_of_free (by rw [hstat])]

end Pmm

end NexOS.Mem
