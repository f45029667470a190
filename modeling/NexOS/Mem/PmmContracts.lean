import NexOS.Mem.PmmRuns

/-! # What the callers of the page allocator rely on

Ranges that are taken out of use, runs of pages that are found when they are free, and
the memory that the allocator starts with.
-/

namespace NexOS.Mem.Pmm

open List Nat

variable {s : Pmm} {op : PmmOp} {page base size pageCount limit : Nat}

/-! ## Reserved ranges -/

/-- The page has an address in the range. -/
def Meets (page base size : Nat) : Prop :=
  ∃ address, base ≤ address ∧ address < base + size ∧ page ≤ address ∧ address < page + pageSize

lemma alignUp_eq {value : Nat} (hle : value ≤ 2 ^ 64 - pageSize) :
    alignUp value = (value + 4095) / 4096 * 4096 := by
  have hlt : value + 4095 < 2 ^ 64 := by
    unfold pageSize at hle
    omega
  exact congrArg (· / 4096 * 4096) (mod_eq_of_lt hlt)

/-- The rounded range covers every page that meets the range, aligned or not. -/
lemma rangeOverlaps_of_meets (hend : base + size ≤ 2 ^ 64 - pageSize)
    (hmeets : Meets page base size) :
    rangeOverlaps page (page + pageSize) (alignDown base) (alignUp (base + size)) = true := by
  have hdown : alignDown base = base / 4096 * 4096 := rfl
  obtain ⟨addr, h⟩ := hmeets
  simp only [rangeOverlaps, alignUp_eq hend, hdown, pageSize, Bool.and_eq_true,
    decide_eq_true_eq] at h ⊢
  omega

lemma meets_of_rangeOverlaps (halign : page % pageSize = 0) (hsize : 0 < size)
    (hend : base + size ≤ 2 ^ 64 - pageSize) (hover : rangeOverlaps page (page + pageSize)
      (alignDown base) (alignUp (base + size)) = true) : Meets page base size := by
  have hdown : alignDown base = base / 4096 * 4096 := rfl
  simp only [rangeOverlaps, alignUp_eq hend, hdown, pageSize, Bool.and_eq_true,
    decide_eq_true_eq] at halign hover
  exact ⟨max page base, by simp only [pageSize]; omega⟩

/-- A reservation takes the pages of the range off the stack and no others. -/
lemma count_reserveRange (hend : base + size ≤ 2 ^ 64 - pageSize) :
    (Meets page base size → page ∉ (s.reserveRange base size).stack) ∧
      (page % pageSize = 0 → ¬Meets page base size →
        (s.reserveRange base size).stack.count page = s.stack.count page) := by
  unfold reserveRange
  split
  next hsize =>
    refine ⟨?_, fun _ _ => rfl⟩
    rintro ⟨addr, h⟩
    omega
  next hsize =>
    have hraw : rangeEnd base size = some (base + size) :=
      if_neg (by simp only [pageSize] at hend; omega)
    have hlt : ¬alignUp (base + size) ≤ alignDown base := by
      rw [alignUp_eq hend, alignDown, pageSize]
      omega
    simp only [hraw, if_neg hlt]
    refine ⟨fun hmeets => ?_, fun halign hmeets => ?_⟩
    · simp [rangeOverlaps_of_meets hend hmeets]
    · rw [count_filter]
      rw [Bool.eq_false_iff.mpr (mt (meets_of_rangeOverlaps halign (pos_of_ne_zero hsize) hend)
        hmeets)]
      rfl

/-! ## Pages out of use -/

/-- The page is not on the stack, nor in use, so that no operation brings it back there. -/
def Withdrawn (s : Pmm) (page : Nat) : Prop :=
  page ∉ s.stack ∧ ∀ index, s.pageSlot page = some index → s.state index ≠ .allocated

/-- What every operation does in every state: pages come to the stack that were in use, and pages
come into use that were on the stack. -/
structure Moves (s s' : Pmm) : Prop where
  phys : s'.phys = s.phys
  stack : ∀ page ∈ s'.stack, page ∈ s.stack ∨
    ∃ index, s.pageSlot page = some index ∧ s.state index = .allocated
  state : ∀ index, s'.state index = .allocated → s.state index = .allocated ∨ s.phys index ∈ s.stack

lemma Withdrawn.moves {s' : Pmm} (hpage : s.Withdrawn page) (hmoves : Moves s s') :
    s'.Withdrawn page := by
  refine ⟨fun hmem => ?_, fun index hslot hstate => ?_⟩
  · rcases hmoves.stack page hmem with hmem | ⟨index, hslot, hstate⟩
    · exact hpage.1 hmem
    · exact hpage.2 index hslot hstate
  · rw [pageSlot_congr hmoves.phys] at hslot
    rcases hmoves.state index hstate with hstate | hmem
    · exact hpage.2 index hslot hstate
    · rw [(pageSlot_eq_some.mp hslot).2.2] at hmem
      exact hpage.1 hmem

lemma moves_refl (s : Pmm) : Moves s s := ⟨rfl, fun _ => .inl, fun _ => .inl⟩

lemma moves_withStack {stack : List Nat} (hsub : stack ⊆ s.stack) :
    Moves s { s with stack := stack } :=
  ⟨rfl, fun _ hmem => .inl (hsub hmem), fun _ => .inl⟩

lemma Moves.pageMarkAllocated {s' marked : Pmm} (hmoves : Moves s s') (hmem : page ∈ s.stack)
    (hmark : s'.pageMarkAllocated page = some marked) : Moves s marked := by
  unfold Pmm.pageMarkAllocated at hmark
  split at hmark
  · cases hmark
  next slot hslot =>
    split_ifs at hmark
    cases hmark
    refine ⟨hmoves.phys, hmoves.stack, fun index hstate => ?_⟩
    by_cases heq : index = slot
    · rw [heq, ← hmoves.phys, (pageSlot_eq_some.mp hslot).2.2]
      exact .inr hmem
    · exact hmoves.state index (by simpa [setSlot, heq] using hstate)

lemma Moves.markAllocatedAll {pages : List Nat} (hsub : pages ⊆ s.stack) {s' : Pmm}
    (hmoves : Moves s s') : Moves s (markAllocatedAll pages s').1 := by
  induction pages generalizing s' with
  | nil => exact hmoves
  | cons page rest ih =>
    unfold Pmm.markAllocatedAll
    split
    · exact hmoves
    next hmark =>
      exact ih (List.subset_of_cons_subset hsub)
        (hmoves.pageMarkAllocated (hsub mem_cons_self) hmark)

/-- A search from the top takes pages of the stack. -/
lemma searchRun_subset {usable : Nat → Bool} {start : Nat} (hstack : 0 < s.stack.length)
    (hfound : searchRun usable s.stack pageCount (s.stack.length - 1) 1 = some start) :
    contiguousPages (s.stack.getD (start + pageCount - 1) 0) pageCount ⊆ s.stack := by
  obtain ⟨hrun, hle⟩ := searchRun_top hstack hfound
  rw [hrun.contiguousPages_eq hle]
  exact fun _ hmem => mem_of_mem_drop (mem_of_mem_take (mem_reverse.mp hmem))

lemma removeRun_subset (s : Pmm) (start pageCount : Nat) :
    (s.removeRun start pageCount).stack ⊆ s.stack :=
  append_subset.mpr ⟨take_subset .., drop_subset ..⟩

/-- The pages that an allocation returns are on the stack. -/
def Takes (s : Pmm) (pageCount : Nat) (result : Nat × Pmm) : Prop :=
  Moves s result.2 ∧
    contiguousPages result.1 (if result.1 = 0 then 0 else pageCount) ⊆ s.stack

lemma takes_none (s : Pmm) (pageCount : Nat) {s' : Pmm} (hmoves : Moves s s') :
    s.Takes pageCount (0, s') := ⟨hmoves, by simp [contiguousPages]⟩

lemma takes_of_subset {base : Nat} {s' : Pmm} (hmoves : Moves s s')
    (hsub : contiguousPages base pageCount ⊆ s.stack) : s.Takes pageCount (base, s') := by
  refine ⟨hmoves, ?_⟩
  split
  · simp [contiguousPages]
  · exact hsub

lemma takes_one {stack : List Nat} (hsub : stack ⊆ s.stack) (hmem : page ∈ s.stack) :
    s.Takes 1 (match ({ s with stack := stack } : Pmm).pageMarkAllocated page with
      | none => (0, { s with stack := stack })
      | some marked => (page, marked)) := by
  split
  · exact takes_none s 1 (moves_withStack hsub)
  next hmark =>
    refine takes_of_subset ((moves_withStack hsub).pageMarkAllocated hmem hmark) ?_
    simpa [contiguousPages_one] using hmem

lemma takes_allocPageBelow (s : Pmm) (limit : Nat) : s.Takes 1 (s.allocPageBelow limit) := by
  have hscan : ∀ index ≤ s.stack.length, s.Takes 1 (s.scanBelow limit index) := by
    intro index hindex
    induction index with
    | zero => exact takes_none s 1 (moves_refl s)
    | succ index ih =>
      simp only [scanBelow]
      split_ifs
      · exact ih (Nat.le_of_succ_le hindex)
      · refine takes_one (eraseIdx_subset ..) ?_
        rw [getD_eq_getElem _ _ hindex]
        exact getElem_mem _
      · exact takes_none s 1 (moves_refl s)
  unfold allocPageBelow
  split
  · exact takes_none s 1 (moves_refl s)
  · exact hscan _ le_rfl

lemma takes_allocContiguous (s : Pmm) (pageCount : Nat) :
    s.Takes pageCount (s.allocContiguous pageCount) := by
  unfold allocContiguous
  split
  · exact takes_none s _ (moves_refl s)
  split
  · exact takes_none s _ (moves_refl s)
  next start hfound =>
    have hsub := searchRun_subset (by omega) hfound
    have hmoves := (moves_withStack (removeRun_subset s start pageCount)).markAllocatedAll hsub
    dsimp only
    split
    · split
      · exact takes_of_subset hmoves hsub
      · exact takes_none s _ hmoves
    · exact takes_none s _ (moves_refl s)

lemma moves_pageRefSet (pages : List Nat) (refs : Nat) {s' : Pmm} (hmoves : Moves s s') :
    Moves s (pages.foldl (fun s physAddr => s.pageRefSet physAddr refs) s') := by
  induction pages generalizing s' with
  | nil => exact hmoves
  | cons page rest ih =>
    refine ih ?_
    simp only [pageRefSet]
    split
    · exact hmoves
    · exact ⟨hmoves.phys, hmoves.stack, hmoves.state⟩

lemma takes_allocContiguousBelow (s : Pmm) (pageCount limit : Nat) :
    s.Takes pageCount (s.allocContiguousBelow pageCount limit) := by
  unfold allocContiguousBelow
  split
  · exact takes_none s _ (moves_refl s)
  split
  next hone => exact hone ▸ takes_allocPageBelow s limit
  split
  · exact takes_none s _ (moves_refl s)
  next start hfound =>
    unfold findRunBelow at hfound
    split at hfound
    · cases hfound
    · exact takes_of_subset (moves_pageRefSet _ 1 (moves_withStack (removeRun_subset ..)))
        (searchRun_subset (by omega) hfound)

/-- A slot whose page is not put into use. -/
lemma moves_setSlot {index refs : Nat} {state : PageState} (hstate : state ≠ .allocated) :
    Moves s (s.setSlot index state refs) := by
  refine ⟨rfl, fun _ => .inl, fun other hother => .inl ?_⟩
  by_cases heq : other = index
  · simp [setSlot, heq, hstate] at hother
  · simpa [setSlot, heq] using hother

lemma moves_releasePage (s : Pmm) (page : Nat) : Moves s (s.releasePage page).2 := by
  unfold releasePage
  split
  · exact moves_refl s
  split
  · exact moves_refl s
  next index hslot =>
    split_ifs with hguard
    · exact moves_refl s
    · exact ⟨rfl, fun _ => .inl, fun _ => .inl⟩
    · exact ⟨rfl, fun _ => .inl, fun _ => .inl⟩
    · have hset := @moves_setSlot s index 0 .free nofun
      refine ⟨rfl, fun other hother => ?_, hset.state⟩
      rcases mem_append.mp hother with hother | hother
      · exact .inl hother
      · rw [mem_singleton.mp hother]
        exact .inr ⟨index, hslot, not_not.mp (not_or.mp hguard).1⟩

/-- Reserving pages changes the slots of these pages only, and to a state out of use. -/
lemma foldl_pageReserve (pages : List Nat) (s : Pmm) :
    let s' := pages.foldl pageReserve s
    s'.phys = s.phys ∧ (∀ index, s'.state index = .allocated → s.state index = .allocated) ∧
      ∀ index, s.phys index ∉ pages → s'.state index = s.state index ∧
        s'.refCount index = s.refCount index := by
  induction pages generalizing s with
  | nil => exact ⟨rfl, fun _ => id, fun _ _ => ⟨rfl, rfl⟩⟩
  | cons page rest ih =>
    obtain ⟨hphys, hstate, hkept⟩ := ih (s.pageReserve page)
    have hone : (s.pageReserve page).phys = s.phys ∧
        (∀ index, (s.pageReserve page).state index = .allocated → s.state index = .allocated) ∧
        ∀ index, s.phys index ≠ page → (s.pageReserve page).state index = s.state index ∧
          (s.pageReserve page).refCount index = s.refCount index := by
      unfold pageReserve
      split
      · exact ⟨rfl, fun _ => id, fun _ _ => ⟨rfl, rfl⟩⟩
      next slot hslot =>
        split_ifs
        · refine ⟨rfl, fun index => ?_, fun index hne => ?_⟩
          · by_cases heq : index = slot <;> simp [setSlot, heq]
          · have heq : index ≠ slot := by
              rintro rfl
              exact hne (pageSlot_eq_some.mp hslot).2.2
            simp [setSlot, heq]
        · exact ⟨rfl, fun _ => id, fun _ _ => ⟨rfl, rfl⟩⟩
    refine ⟨hphys.trans hone.1, fun index h => hone.2.1 index (hstate index h),
      fun index hout => ?_⟩
    rw [mem_cons, not_or] at hout
    have hrest := hkept index (hone.1 ▸ hout.2)
    have hfirst := hone.2.2 index hout.1
    exact ⟨hrest.1.trans hfirst.1, hrest.2.trans hfirst.2⟩

lemma state_reserveRange (s : Pmm) (base size : Nat) : (s.reserveRange base size).phys = s.phys ∧
    ∀ index, (s.reserveRange base size).state index = .allocated → s.state index = .allocated := by
  unfold reserveRange
  split
  · exact ⟨rfl, fun _ => id⟩
  split
  · exact ⟨rfl, fun _ => id⟩
  dsimp only
  split
  · exact ⟨rfl, fun _ => id⟩
  obtain ⟨hphys, hstate, -⟩ := foldl_pageReserve (s.stack.filter _) s
  exact ⟨hphys, hstate⟩

/-- All that the operations do to pages out of use, in every state. -/
lemma step_moves (s : Pmm) (op : PmmOp) :
    Moves s (s.step op).2 ∧ s.handedOut op ⊆ s.stack := by
  cases op with
  | allocPage =>
    change s.Takes 1 s.allocPage
    unfold allocPage
    split
    · exact takes_none s 1 (moves_refl s)
    next hlast => exact takes_one (dropLast_subset _) (mem_of_getLast? hlast)
  | allocPageBelow limit => exact takes_allocPageBelow s limit
  | allocContiguous pageCount => exact takes_allocContiguous s pageCount
  | allocContiguousBelow pageCount limit => exact takes_allocContiguousBelow s pageCount limit
  | retainPage page =>
    refine ⟨?_, nil_subset _⟩
    change Moves s (s.retainPage page).2
    unfold retainPage
    split
    · exact moves_refl s
    split
    · exact moves_refl s
    split
    · exact moves_refl s
    · exact ⟨rfl, fun _ => .inl, fun _ => .inl⟩
  | releasePage page => exact ⟨moves_releasePage s page, nil_subset _⟩
  | freePage page => exact ⟨moves_releasePage s page, nil_subset _⟩
  | reserveRange base size =>
    obtain ⟨hphys, hstate⟩ := state_reserveRange s base size
    refine ⟨⟨hphys, fun page hmem => .inl ?_, fun index h => .inl (hstate index h)⟩, nil_subset _⟩
    change page ∈ (s.reserveRange base size).stack at hmem
    unfold reserveRange at hmem
    split at hmem
    · exact hmem
    split at hmem
    · exact hmem
    dsimp only at hmem
    split at hmem
    · exact hmem
    · exact mem_of_mem_filter hmem

/-- A page out of use is never handed out again. -/
lemma Withdrawn.not_handedOut (hpage : s.Withdrawn page) (ops : List PmmOp) (op : PmmOp) :
    page ∉ (s.run ops).handedOut op := by
  have hrun : (s.run ops).Withdrawn page := GuardedRuns.run_invariant (Withdrawn · page)
    (fun s op hpage => hpage.moves (step_moves s op).1) hpage ops
  exact fun hout => hrun.1 ((step_moves _ op).2 hout)

/-- The rounded end of such a range is zero. -/
lemma reserveRange_of_wraps (hwrap : 2 ^ 64 - pageSize < base + size) :
    s.reserveRange base size = s := by
  unfold reserveRange
  split
  · rfl
  split
  · rfl
  next rawEnd hraw =>
    unfold rangeEnd at hraw
    split_ifs at hraw
    cases hraw
    rw [if_pos]
    simp only [alignUp, alignDown, pageSize] at hwrap ⊢
    omega

/-- A reservation leaves pages outside the range as they are. -/
lemma Tracked.status_reserveRange (htrack : s.Tracked page) (halign : page % pageSize = 0)
    (hend : base + size ≤ 2 ^ 64 - pageSize) (hmeets : ¬Meets page base size) :
    (s.reserveRange base size).status page = s.status page := by
  have hcount := (@count_reserveRange s page base size hend).2 halign hmeets
  unfold status
  rw [hcount, slotOf_congr (state_reserveRange s base size).1]
  unfold reserveRange at hcount ⊢
  split
  · rfl
  split
  · rfl
  dsimp only
  split
  · rfl
  next hsize _ rawEnd hraw _ =>
    obtain ⟨-, -, hkept⟩ := foldl_pageReserve (s.stack.filter _) s
    have hsame := hkept (s.slotOf page) ?_
    · rw [hsame.1, hsame.2]
    rw [htrack.phys_slotOf, mem_filter]
    rintro ⟨-, hover⟩
    have hraw : rawEnd = base + size := by
      unfold rangeEnd at hraw
      split_ifs at hraw
      exact (Option.some.inj hraw).symm
    rw [hraw] at hover
    exact hmeets (meets_of_rangeOverlaps halign (pos_of_ne_zero hsize) hend hover)

variable (hs : s.Inv)

include hs

variable (htrack : s.Tracked page)

include htrack

lemma Tracked.aligned : page % pageSize = 0 := by
  have halign := hs.index.aligned (s.slotOf page)
  rwa [htrack.phys_slotOf] at halign

/-- All that a reservation does to a page. -/
lemma Inv.reserveRange_page (base size : Nat) :
    (s.reserveRange base size).status page = s.status page ∨
      s.status page = .free ∧ (s.reserveRange base size).status page = ⟨.reserved, 0, 0⟩ := by
  have hpage := (hs.change_reserveRange base size).pages page htrack
  generalize s.status page = before at *
  generalize (s.reserveRange base size).status page = after at *
  cases hpage with
  | kept => exact .inl rfl
  | handed hout => exact absurd hout not_mem_nil
  | retained _ hop => cases hop
  | dropped _ hop => rcases hop with hop | hop <;> cases hop
  | freed hop => rcases hop with hop | hop <;> cases hop
  | reserved => exact .inr ⟨rfl, rfl⟩

omit htrack

omit hs

/-- In every state: after a range was reserved none of whose pages was in use, no later allocation
returns a page of it, and pages outside it are as they were. Where the rounded end of the range
wraps around, nothing is reserved, and none of its pages may be free either. -/
theorem reserveRange_keeps (s : Pmm) (base size : Nat)
    (hunused : ∀ page index, s.pageSlot page = some index → Meets page base size →
      s.state index ≠ .allocated)
    (hend : base + size ≤ 2 ^ 64 - pageSize ∨ ∀ page ∈ s.stack, ¬Meets page base size)
    (after : List PmmOp) (op : PmmOp) :
    (∀ page ∈ ((s.reserveRange base size).run after).handedOut op, ¬Meets page base size) ∧
      ∀ page, s.Tracked page → page % pageSize = 0 → ¬Meets page base size →
        (s.reserveRange base size).status page = s.status page := by
  by_cases hwrap : base + size ≤ 2 ^ 64 - pageSize
  · refine ⟨fun page hout hmeets => ?_, fun page htrack halign => htrack.status_reserveRange halign
      hwrap⟩
    obtain ⟨hphys, hstate⟩ := state_reserveRange s base size
    have hpage : (s.reserveRange base size).Withdrawn page := by
      refine ⟨(count_reserveRange hwrap).1 hmeets, fun index hslot hused => ?_⟩
      rw [pageSlot_congr hphys] at hslot
      exact hunused page index hslot hmeets (hstate index hused)
    exact hpage.not_handedOut after op hout
  · rw [reserveRange_of_wraps (not_le.mp hwrap)]
    refine ⟨fun page hout hmeets => ?_, fun _ _ _ _ => rfl⟩
    have hpage : s.Withdrawn page := ⟨fun hmem => (hend.resolve_left hwrap) page hmem hmeets,
      fun index hslot => hunused page index hslot hmeets⟩
    exact hpage.not_handedOut after op hout

/-- One byte is reserved, and its page is not handed out. -/
theorem reserveRange_keeps_first_page :
    (∀ page ∈ ((twoPages.reserveRange 0x100000 1).run
        [.allocPage, .releasePage 0x101000]).handedOut .allocPage, ¬Meets page 0x100000 1) ∧
      ∀ page, twoPages.Tracked page → page % pageSize = 0 → ¬Meets page 0x100000 1 →
        (twoPages.reserveRange 0x100000 1).status page = twoPages.status page := by
  refine reserveRange_keeps twoPages 0x100000 1 (fun page index hslot hmeets => ?_)
    (.inl (by decide)) [.allocPage, .releasePage 0x101000] .allocPage
  obtain ⟨address, hmeets⟩ := hmeets
  have htrack : twoPages.Tracked page := by
    refine ⟨?_, Option.isSome_iff_exists.mpr ⟨index, hslot⟩⟩
    rintro rfl
    simp only [pageSize] at hmeets
    omega
  have halign := Tracked.aligned twoPages_inv htrack
  have hpage : page = 0x100000 := by
    unfold pageSize at *
    omega
  have hmem : page ∈ twoPages.stack := by
    rw [hpage, twoPages_stack]
    decide
  have hfree := congrArg PageStatus.state (twoPages_inv.status_of_mem_stack hmem)
  rw [htrack.pageSlot] at hslot
  cases hslot
  exact fun hstate => absurd (hstate.symm.trans hfree) nofun

include hs

lemma Inv.handedOut_allocPage (hlast : s.stack.getLast? = some page) :
    s.handedOut .allocPage = [page] := by
  have hmem := mem_of_getLast? hlast
  have htrack := hs.stack page hmem
  obtain ⟨hstate, hrefs⟩ := (pageIsFree_iff htrack).mp (hs.pageIsFree_of_mem_stack hmem)
  have hmark := @pageMarkAllocated_of_free { s with stack := s.stack.dropLast } page
    ((tracked_congr rfl page).mpr htrack) hstate hrefs
  simp only [handedOut, allocPage, hlast, hmark, if_neg htrack.1, contiguousPages_one]

/-- A page that is in use when its range is reserved is handed out again after its release. -/
lemma Inv.reserved_handedOut (htrack : s.Tracked page)
    (hstat : s.status page = .allocated 1) (base size : Nat) :
    (s.run [.reserveRange base size, .releasePage page]).handedOut .allocPage = [page] := by
  have hchg := hs.change_reserveRange base size
  have hs' := hs.change hchg
  have htrack' := (tracked_congr hchg.phys page).mpr htrack
  have hkept : (s.reserveRange base size).status page = .allocated 1 := by
    rcases hs.reserveRange_page htrack base size with hkept | ⟨hfree, -⟩
    · rw [hkept, hstat]
    · rw [hstat] at hfree
      cases hfree
  refine (hs'.change (hs'.change_releasePage (.inl rfl))).handedOut_allocPage ?_
  obtain ⟨hstate, hrefs, hzero⟩ := PageStatus.mk.inj hkept
  have hroom := hs'.stack_length_lt htrack' (count_eq_zero.mp hzero)
  simp [releasePage, htrack'.aligned hs', htrack'.pageSlot, hstate, hrefs, not_le.mpr hroom]

lemma Inv.allocPage_reserved (hlast : s.stack.getLast? = some page) (base size : Nat) :
    (s.run [.allocPage, .reserveRange base size, .releasePage page]).handedOut .allocPage =
      [page] := by
  have hout : page ∈ s.handedOut .allocPage := by
    rw [hs.handedOut_allocPage hlast]
    exact mem_cons_self
  obtain ⟨htrack, -, hstat⟩ := @Inv.status_handedOut s _ hs .allocPage trivial hout
  have hchg := hs.step_change .allocPage trivial
  exact (hs.change hchg).reserved_handedOut ((tracked_congr hchg.phys _).mpr htrack) hstat base size

omit hs

/-- A page that is reserved while in use is handed out again. -/
theorem reserved_page_allocated :
    (twoPages.run [.allocPage, .reserveRange 0x100000 0x1000, .releasePage 0x100000]).handedOut
      .allocPage = [0x100000] := by
  refine twoPages_inv.allocPage_reserved ?_ _ _
  rw [twoPages_stack, getLast?_cons_cons, getLast?_singleton]

/-! ## Runs of free pages -/

/-- There are so many free pages in a row that can be used. -/
def HasPages (s : Pmm) (pageCount : Nat) (usable : Nat → Prop) : Prop :=
  ∃ base, ∀ page ∈ contiguousPages base pageCount, page ∈ s.stack ∧ usable page

/-- The free stack holds so many entries in a row, at least two, that descend by one page
each. -/
def HasRun (s : Pmm) (pageCount : Nat) : Prop :=
  2 ≤ pageCount ∧ ∃ start, start + pageCount ≤ s.stack.length ∧ Descends s.stack start pageCount

/-- An allocation succeeds if and only if there are pages for it. The pages it returns are pages
of the allocator that may be used, were free and have one reference now, and nothing happens to
other pages. -/
def Allocates (s : Pmm) (op : PmmOp) (pageCount : Nat) (usable : Nat → Prop) : Prop :=
  ((s.step op).1 ≠ 0 ↔ s.HasPages pageCount usable) ∧
    (∀ page ∈ s.handedOut op, s.Tracked page ∧ usable page ∧ s.status page = .free ∧
      (s.step op).2.status page = .allocated 1) ∧
    ∀ page, s.Tracked page → page ∉ s.handedOut op → (s.step op).2.status page = s.status page

/-- Once its pages may be used, only the success of such an allocation is in question. -/
lemma Inv.allocates_iff (hs : s.Inv) {op : PmmOp} {usable : Nat → Prop} (hop : s.TakesNoLowRun op)
    (hkind : (∃ count, op = .allocContiguous count) ∨
      ∃ count limit, op = .allocContiguousBelow count limit)
    (huse : ∀ page ∈ s.handedOut op, usable page) :
    s.Allocates op pageCount usable ↔ ((s.step op).1 ≠ 0 ↔ s.HasPages pageCount usable) := by
  refine ⟨fun h => h.1, fun h => ⟨h, fun page hout => ?_, fun page htrack hout => ?_⟩⟩
  · obtain ⟨htrack, hstat⟩ := hs.status_handedOut hop hout
    exact ⟨htrack, huse page hout, hstat⟩
  have hpage := (hs.step_change op hop).pages page htrack
  generalize s.status page = before at *
  generalize (s.step op).2.status page = after at *
  rcases hkind with ⟨count, rfl⟩ | ⟨count, limit, rfl⟩ <;> cases hpage <;> simp_all

lemma hasPages_of_descends {start : Nat} {usable : Nat → Prop}
    (hrun : Descends s.stack start pageCount) (hle : start + pageCount ≤ s.stack.length)
    (huse : ∀ i < pageCount, usable (s.stack.getD (start + i) 0)) :
    s.HasPages pageCount usable := by
  refine ⟨s.stack.getD (start + pageCount - 1) 0, fun page hpage => ?_⟩
  rw [hrun.contiguousPages_eq hle, mem_reverse, mem_iff_getElem] at hpage
  obtain ⟨i, hi, rfl⟩ := hpage
  rw [length_take, length_drop] at hi
  have hpage := huse i (by omega)
  rw [getD_eq_getElem _ _ (by omega)] at hpage
  rw [getElem_take, getElem_drop]
  exact ⟨getElem_mem _, hpage⟩

/-- A search for one page passes every entry. -/
lemma searchRun_one {usable : Nat → Bool} {stack : List Nat} {index run : Nat} (hrun : 0 < run) :
    searchRun usable stack 1 index run = none := by
  induction index generalizing run with
  | zero => rfl
  | succ index ih =>
    simp only [searchRun]
    split_ifs
    · omega
    · exact ih (succ_pos _)
    · exact ih one_pos

/-- Whether several pages are found depends on the order of the stack. -/
lemma Inv.allocContiguous_iff (hs : s.Inv) :
    (s.allocContiguous pageCount).1 ≠ 0 ↔ s.HasRun pageCount := by
  unfold allocContiguous
  split
  · refine iff_of_false (by simp) ?_
    rintro ⟨htwo, start, hle, -⟩
    omega
  cases hfound : searchRun (fun _ => true) s.stack pageCount (s.stack.length - 1) 1 with
  | none =>
    refine iff_of_false (by simp) ?_
    rintro ⟨htwo, start, hle, hrun⟩
    exact searchRun_ne_none hrun (fun _ _ => rfl) _ 1 (by omega) one_pos (by omega) (by omega)
      hfound
  | some start =>
    obtain ⟨hrun, hle⟩ := searchRun_top (by omega) hfound
    have hmem : s.stack.getD (start + pageCount - 1) 0 ∈ s.stack := by
      rw [getD_eq_getElem _ _ (by omega)]
      exact getElem_mem _
    have hfree := hs.allFree (hrun.perm hle)
    have hmark : (markAllocatedAll (contiguousPages (s.stack.getD (start + pageCount - 1) 0)
        pageCount) (s.removeRun start pageCount)).2 = true :=
      congrArg Prod.snd (hfree.withStack _).markAllocatedAll_eq
    have hall : (contiguousPages (s.stack.getD (start + pageCount - 1) 0) pageCount).all
        s.pageIsFree = true := all_eq_true.mpr hfree.free
    refine iff_of_true ?_ ⟨?_, start, hle, hrun⟩
    · simp only [hall, hmark, if_true]
      exact (hs.stack _ hmem).1
    · by_contra hone
      obtain rfl : pageCount = 1 := by omega
      rw [searchRun_one one_pos] at hfound
      cases hfound

lemma Inv.allocPageBelow_iff (hs : s.Inv) :
    (s.allocPageBelow limit).1 ≠ 0 ↔ ∃ page ∈ s.stack, page + pageSize ≤ limit := by
  have hscan : ∀ index ≤ s.stack.length, (s.scanBelow limit index).1 ≠ 0 ↔
      ∃ i < index, s.stack.getD i 0 + pageSize ≤ limit := by
    intro index hindex
    induction index with
    | zero => simp [scanBelow]
    | succ index ih =>
      have hmem : s.stack.getD index 0 ∈ s.stack := by
        rw [getD_eq_getElem _ _ hindex]
        exact getElem_mem _
      have hfree := hs.pageIsFree_of_mem_stack hmem
      have htrack := hs.stack _ hmem
      obtain ⟨hstate, hrefs⟩ := (pageIsFree_iff htrack).mp hfree
      have hmark := @pageMarkAllocated_of_free { s with stack := s.stack.eraseIdx index } _
        ((tracked_congr rfl _).mpr htrack) hstate hrefs
      simp only [scanBelow, hfree, hmark, if_true, Nat.lt_succ_iff_lt_or_eq]
      split_ifs with hhigh
      · rw [ih (Nat.le_of_lt hindex)]
        constructor
        · rintro ⟨i, hi, hlow⟩
          exact ⟨i, .inl hi, hlow⟩
        · rintro ⟨i, hi | rfl, hlow⟩
          · exact ⟨i, hi, hlow⟩
          · omega
      · exact iff_of_true htrack.1 ⟨index, .inr rfl, Nat.le_of_not_lt hhigh⟩
  unfold allocPageBelow
  split_ifs with hguard
  · refine iff_of_false (by simp) ?_
    rintro ⟨page, hmem, hlow⟩
    have hne := (hs.stack page hmem).1
    have hpos := length_pos_of_mem hmem
    omega
  · rw [hscan _ le_rfl]
    constructor
    · rintro ⟨i, hi, hlow⟩
      rw [getD_eq_getElem _ _ hi] at hlow
      exact ⟨_, getElem_mem hi, hlow⟩
    · rintro ⟨page, hmem, hlow⟩
      obtain ⟨i, hi, rfl⟩ := mem_iff_getElem.mp hmem
      exact ⟨i, hi, by rwa [getD_eq_getElem _ _ hi]⟩

lemma hasPages_one {usable : Nat → Prop} : s.HasPages 1 usable ↔ ∃ page ∈ s.stack, usable page := by
  simp [HasPages, contiguousPages_one]

lemma allocContiguousBelow_of_no_run (hone : pageCount ≠ 1)
    (hno : ¬s.HasLowRun pageCount limit) : (s.allocContiguousBelow pageCount limit).1 = 0 := by
  rw [allocContiguousBelow, (findRunBelow_eq_none_iff ..).mpr hno, if_neg hone]
  split <;> rfl

/-- A single page that is found below a limit is below it. -/
lemma allocContiguousBelow_one_le (hout : page ∈ s.handedOut (.allocContiguousBelow 1 limit)) :
    page + pageSize ≤ limit := by
  have hscan : ∀ index, (s.scanBelow limit index).1 = 0 ∨
      (s.scanBelow limit index).1 + pageSize ≤ limit := by
    intro index
    induction index with
    | zero => exact .inl rfl
    | succ index ih =>
      simp only [scanBelow]
      split_ifs with hhigh
      · exact ih
      · split
        · exact .inl rfl
        · exact .inr (not_lt.mp hhigh)
      · exact .inl rfl
  have hlow : (s.allocContiguousBelow 1 limit).1 = 0 ∨
      (s.allocContiguousBelow 1 limit).1 + pageSize ≤ limit := by
    unfold allocContiguousBelow allocPageBelow
    split
    · exact .inl rfl
    · rw [if_pos rfl]
      split
      · exact .inl rfl
      · exact hscan _
  simp only [handedOut] at hout
  split at hout
  · cases hout
  next hne =>
    rw [contiguousPages_one, mem_singleton] at hout
    exact hout ▸ hlow.resolve_left hne

/-- A single page below a limit is found wherever it is on the stack. -/
lemma Inv.allocContiguousBelow_one (hs : s.Inv) :
    (s.allocContiguousBelow 1 limit).1 ≠ 0 ↔ s.HasPages 1 (· + pageSize ≤ limit) := by
  rw [hasPages_one, ← hs.allocPageBelow_iff]
  by_cases hempty : s.stack = []
  · simp [allocContiguousBelow, allocPageBelow, hempty]
  · rw [allocContiguousBelow, if_neg (by simpa using hempty), if_pos rfl]

/-- In every state that is reached without taking several pages below a limit: an allocation
of consecutive pages does what it should exactly if the free stack happens to have free
consecutive pages, at least two, side by side and in descending order, and below a limit
exactly if one page is wanted or there are no such pages. -/
theorem contiguous_allocates_iff (memmap : List MemmapEntry) (kernelPhysAddr kernelPhysSize : Nat)
    (ops : List PmmOp)
    (hops : (boot.init memmap kernelPhysAddr kernelPhysSize).RunTakesNoLowRun ops)
    (pageCount limit : Nat) (hcount : 1 ≤ pageCount) :
    let s := (boot.init memmap kernelPhysAddr kernelPhysSize).run ops
    (s.Allocates (.allocContiguous pageCount) pageCount (fun _ => True) ↔
        (s.HasPages pageCount (fun _ => True) → s.HasRun pageCount)) ∧
      (s.Allocates (.allocContiguousBelow pageCount limit) pageCount (· + pageSize ≤ limit) ↔
        (s.HasPages pageCount (· + pageSize ≤ limit) → pageCount = 1)) := by
  intro s
  have hs : s.Inv := (init_inv ..).run ops hops
  have hrun : s.HasRun pageCount → s.HasPages pageCount (fun _ => True) :=
    fun ⟨_, start, hle, hrun⟩ => hasPages_of_descends hrun hle fun _ _ => trivial
  have hlow : s.HasLowRun pageCount limit → s.HasPages pageCount (· + pageSize ≤ limit) :=
    fun ⟨_, _, start, hle, hrun, hbelow⟩ => hasPages_of_descends hrun hle hbelow
  refine ⟨?_, ?_, fun hone => ?_⟩
  · have hiff : (s.step (.allocContiguous pageCount)).1 ≠ 0 ↔ s.HasRun pageCount :=
      hs.allocContiguous_iff
    rw [@Inv.allocates_iff s pageCount hs (.allocContiguous pageCount) _ trivial (.inl ⟨_, rfl⟩)
      fun _ _ => trivial, hiff]
    exact ⟨Iff.mpr, fun h => ⟨hrun, h⟩⟩
  · rintro ⟨hiff, hpages, -⟩ hhas
    by_contra hone
    have hsome := hiff.mpr hhas
    by_cases hlow : s.HasLowRun pageCount limit
    · obtain ⟨pages, -, rfl, hne, -⟩ := hs.allocContiguousBelow_of_run hlow
      obtain ⟨page, hout⟩ := exists_mem_of_ne_nil _ hne
      have hafter := (hpages page hout).2.2.2
      change (s.allocContiguousBelow pageCount limit).2.status page = _ at hafter
      rw [(hs.status_of_run hlow hout).2] at hafter
      cases hafter
    · exact hsome (allocContiguousBelow_of_no_run hone hlow)
  · have hno : s.TakesNoLowRun (.allocContiguousBelow pageCount limit) := by
      intro hrun
      have htwo := hrun.1
      have := hone (hlow hrun)
      omega
    by_cases hcount : pageCount = 1
    · subst hcount
      exact (hs.allocates_iff hno (.inr ⟨_, _, rfl⟩) fun _ => allocContiguousBelow_one_le).mpr
        hs.allocContiguousBelow_one
    · have hzero := allocContiguousBelow_of_no_run hcount hno
      refine (hs.allocates_iff hno (.inr ⟨_, _, rfl⟩) fun page hout => ?_).mpr
        (iff_of_false (not_not.mpr hzero) (mt hone hcount))
      rw [handedOut, if_pos hzero] at hout
      cases hout

/-- Two pages in a row are found. -/
theorem contiguous_allocates_two_pages :
    twoPages.Allocates (.allocContiguous 2) 2 (fun _ => True) := by
  have hrun : twoPages.HasRun 2 := by
    unfold HasRun
    rw [twoPages_stack]
    refine ⟨le_rfl, 0, le_rfl, fun i hi => ?_⟩
    obtain rfl : i = 0 := by omega
    rfl
  exact (contiguous_allocates_iff [⟨0x100000, 0x2000, memmapUsable⟩] 0x200000 0x1000 [] trivial 2 0
    (by decide)).1.mpr fun _ => hrun

/-- One page is asked for, two are free and none is returned. -/
theorem allocContiguous_one_fails :
    (twoPages.allocContiguous 1).1 = 0 ∧ twoPages.HasPages 1 (fun _ => True) := by
  refine ⟨not_not.mp (mt twoPages_inv.allocContiguous_iff.mp ?_), hasPages_one.mpr ?_⟩
  · exact fun hrun => absurd hrun.1 (by decide)
  · rw [twoPages_stack]
    exact ⟨_, mem_cons_self, trivial⟩

end NexOS.Mem.Pmm
