import NexOS.Mem.PmmInvariant

/-! # The operations of the page allocator

Each operation moves single pages along the steps of `PageStep`, with one
exception: the allocation of several pages below a limit. The exception is
described by the free run it finds, and by the page it leaves behind.
-/

namespace NexOS.Mem

open List Nat

namespace Pmm

/-! ## Single pages -/

lemma contiguousPages_one (base : Nat) : contiguousPages base 1 = [base] := by
  simp [contiguousPages]

/-- An allocation that reports `result` for `pageCount` pages. -/
def Hands (op : PmmOp) (pageCount : Nat) (s : Pmm) (result : Nat × Pmm) : Prop :=
  Change op (contiguousPages result.1 (if result.1 = 0 then 0 else pageCount)) s result.2

variable {s : Pmm} {stack : List Nat} {start pageCount addr run index limit : Nat}
  {usable : Nat → Bool}

variable (hs : s.Inv)

include hs

lemma Inv.hands_zero (op : PmmOp) (pageCount : Nat) : Hands op pageCount s (0, s) :=
  hs.change_refl op

/-- Marking one page that was taken off the stack. -/
lemma Inv.hands_one (op : PmmOp) {rest : List Nat} (hperm : s.stack.Perm (addr :: rest)) :
    Hands op 1 s
      (match ({ s with stack := rest } : Pmm).pageMarkAllocated addr with
      | none => (0, { s with stack := rest })
      | some marked => (addr, marked)) := by
  have hnz : addr ≠ 0 := (hs.stack addr (hperm.mem_iff.mpr mem_cons_self)).1
  obtain ⟨hok, hchg⟩ := hs.allocate op (show s.stack.Perm ([addr] ++ rest) from hperm)
  simp only [markAllocatedAll] at hok hchg
  split
  next hnone => simp [hnone] at hok
  next marked hsome =>
    rw [hsome] at hchg
    simpa [Hands, hnz, contiguousPages_one] using hchg

lemma Inv.hands_allocPage (op : PmmOp) : Hands op 1 s s.allocPage := by
  unfold allocPage
  split
  · exact hs.hands_zero op 1
  next addr htop =>
    apply hs.hands_one op
    have hperm := perm_append_singleton addr s.stack.dropLast
    rwa [dropLast_append_getLast? addr htop] at hperm

lemma Inv.hands_scanBelow (op : PmmOp) (limit index : Nat)
    (hindex : index ≤ s.stack.length) : Hands op 1 s (s.scanBelow limit index) := by
  induction index with
  | zero => exact hs.hands_zero op 1
  | succ index ih =>
    have hlt : index < s.stack.length := hindex
    unfold scanBelow
    dsimp only
    split
    · exact ih hlt.le
    split
    · apply hs.hands_one op
      rw [getD_eq_getElem _ _ hlt]
      exact (getElem_cons_eraseIdx_perm hlt).symm
    · exact hs.hands_zero op 1

lemma Inv.hands_allocPageBelow (op : PmmOp) (limit : Nat) :
    Hands op 1 s (s.allocPageBelow limit) := by
  unfold allocPageBelow
  split
  · exact hs.hands_zero op 1
  · exact hs.hands_scanBelow op limit _ le_rfl

omit hs

/-! ## Runs of pages -/

/-- The entries from `start` on, `run` of them, descend by one page each. -/
def Descends (stack : List Nat) (start run : Nat) : Prop :=
  ∀ i, i + 1 < run → stack.getD (start + i) 0 = stack.getD (start + i + 1) 0 + pageSize

lemma descends_one (stack : List Nat) (start : Nat) : Descends stack start 1 := by
  intro i hi
  omega

lemma Descends.cons (hrun : Descends stack (start + 1) run)
    (hhead : stack.getD start 0 = stack.getD (start + 1) 0 + pageSize) :
    Descends stack start (run + 1) := by
  intro i hi
  cases i with
  | zero => exact hhead
  | succ i =>
    have hnext := hrun i (by omega)
    rwa [add_right_comm] at hnext

variable (hrun : Descends stack start run)

include hrun

lemma Descends.getD (i : Nat) (hi : i < run) :
    stack.getD (start + (run - 1 - i)) 0 = stack.getD (start + run - 1) 0 + i * pageSize := by
  induction i with
  | zero =>
    congr 1
    omega
  | succ i ih =>
    have hstep := hrun (run - 1 - (i + 1)) (by omega)
    have hnext : start + (run - 1 - (i + 1)) + 1 = start + (run - 1 - i) := by omega
    rw [hnext, ih (by omega)] at hstep
    rw [hstep, add_mul, one_mul, add_assoc]

/-- The pages of a run, lowest address first, are its entries read backwards. -/
lemma Descends.contiguousPages_eq (hle : start + run ≤ stack.length) :
    contiguousPages (stack.getD (start + run - 1) 0) run =
      ((stack.drop start).take run).reverse := by
  have hlen : ((stack.drop start).take run).length = run := by
    rw [length_take, length_drop]
    omega
  apply ext_getElem
  · simp [contiguousPages, hlen]
  intro i hi _
  have hi' : i < run := by simpa [contiguousPages] using hi
  have hget := hrun.getD i hi'
  rw [getD_eq_getElem _ _ (by omega)] at hget
  simp only [contiguousPages, getElem_map, getElem_range, getElem_reverse,
    getElem_take, getElem_drop, hlen]
  exact hget.symm

lemma Descends.perm (hle : start + run ≤ stack.length) :
    stack.Perm (contiguousPages (stack.getD (start + run - 1) 0) run ++
      (stack.take start ++ stack.drop (start + run))) := by
  rw [hrun.contiguousPages_eq hle]
  have hsplit : stack = stack.take start ++ ((stack.drop start).take run ++
      stack.drop (start + run)) := by
    rw [← drop_drop, take_append_drop, take_append_drop]
  have hmove : (stack.take start ++ ((stack.drop start).take run ++
      stack.drop (start + run))).Perm ((stack.drop start).take run ++
        (stack.take start ++ stack.drop (start + run))) := perm_append_comm_assoc ..
  exact (List.Perm.of_eq hsplit).trans (hmove.trans ((reverse_perm _).symm.append_right _))

omit hrun

lemma searchRun_some (hrun : Descends stack index run) (hle : index + run ≤ stack.length)
    (hfound : searchRun usable stack pageCount index run = some start) :
    Descends stack start pageCount ∧ start + pageCount ≤ stack.length := by
  induction index generalizing run with
  | zero => cases hfound
  | succ index ih =>
    unfold searchRun at hfound
    dsimp only at hfound
    split at hfound
    next hnext =>
      have hlonger : Descends stack index (run + 1) := by
        apply hrun.cons
        simp only [Bool.and_eq_true, beq_iff_eq] at hnext
        exact hnext.2
      have hle' : index + (run + 1) ≤ stack.length := by omega
      split at hfound
      next hcount =>
        cases hfound
        rw [hcount] at hlonger hle'
        exact ⟨hlonger, hle'⟩
      · exact ih hlonger hle' hfound
    · exact ih (descends_one stack index) (by omega) hfound

/-- The search from the top of a stack that is not empty. -/
lemma searchRun_top (hstack : 0 < stack.length)
    (hfound : searchRun usable stack pageCount (stack.length - 1) 1 = some start) :
    Descends stack start pageCount ∧ start + pageCount ≤ stack.length :=
  searchRun_some (descends_one stack _) (by omega) hfound

lemma Inv.hands_allocContiguous (hs : s.Inv) (op : PmmOp) (pageCount : Nat) :
    Hands op pageCount s (s.allocContiguous pageCount) := by
  unfold allocContiguous
  split
  · exact hs.hands_zero op pageCount
  next hcount =>
    split
    · exact hs.hands_zero op pageCount
    next start hfound =>
      obtain ⟨hrun, hle⟩ := searchRun_top (by omega) hfound
      obtain ⟨hok, hchg⟩ := hs.allocate op (hrun.perm hle)
      dsimp only
      split
      · have hmem : s.stack.getD (start + pageCount - 1) 0 ∈ s.stack := by
          rw [getD_eq_getElem _ _ (by omega)]
          exact getElem_mem _
        have hnz := (hs.stack _ hmem).1
        unfold Hands removeRun
        rw [if_pos hok, if_neg hnz]
        exact hchg
      · exact hs.hands_zero op pageCount

/-- The free stack holds `pageCount` entries in a row, at least two, that
descend by one page each and all lie below the limit. -/
def HasLowRun (s : Pmm) (pageCount maxPhysExclusive : Nat) : Prop :=
  2 ≤ pageCount ∧ pageCount * pageSize < maxPhysExclusive ∧
    ∃ start, start + pageCount ≤ s.stack.length ∧ Descends s.stack start pageCount ∧
      ∀ i < pageCount, s.stack.getD (start + i) 0 + pageSize ≤ maxPhysExclusive

lemma searchRun_usable (hpos : 0 < run)
    (huse : 1 < run → ∀ i < run, usable (stack.getD (index + i) 0) = true)
    (hfound : searchRun usable stack pageCount index run = some start) :
    ∀ i < pageCount, usable (stack.getD (start + i) 0) = true := by
  induction index generalizing run with
  | zero => cases hfound
  | succ index ih =>
    unfold searchRun at hfound
    dsimp only at hfound
    split at hfound
    next hnext =>
      simp only [Bool.and_eq_true] at hnext
      have hlonger : ∀ i < run + 1, usable (stack.getD (index + i) 0) = true := by
        intro i hi
        rcases i with _ | _ | i
        · exact hnext.1.2
        · exact hnext.1.1
        · have hlast := huse (by omega) (i + 1) (by omega)
          rwa [add_assoc, add_comm 1] at hlast
      split at hfound
      next hcount =>
        cases hfound
        exact hcount ▸ hlonger
      · exact ih (succ_pos run) (fun _ => hlonger) hfound
    · exact ih one_pos (fun hlt => absurd hlt (lt_irrefl 1)) hfound

/-- The search misses no run. Inside a run the count has grown by one for every
entry of the run that was passed. -/
lemma searchRun_ne_none (hrun : Descends stack start pageCount)
    (huse : ∀ i < pageCount, usable (stack.getD (start + i) 0) = true) (index run : Nat)
    (hindex : start ≤ index) (hpos : 0 < run) (hlt : run < pageCount)
    (hpass : index < start + pageCount → start + pageCount ≤ index + run) :
    searchRun usable stack pageCount index run ≠ none := by
  induction index generalizing run with
  | zero =>
    omega
  | succ index ih =>
    unfold searchRun
    dsimp only
    by_cases hins : start ≤ index ∧ index + 1 < start + pageCount
    · obtain ⟨hstart, hend⟩ := hins
      obtain ⟨i, rfl⟩ := Nat.exists_eq_add_of_le hstart
      have hdown := hrun i (by omega)
      have hprev := huse i (by omega)
      have hcur := huse (i + 1) (by omega)
      rw [← add_assoc] at hcur
      rw [if_pos (by simp only [hprev, hcur, hdown.symm, beq_self_eq_true, Bool.and_self])]
      split
      · simp
      next hcount => exact ih (run + 1) hstart (succ_pos run) (by omega) (by omega)
    · by_cases hstart : start ≤ index
      · split
        · split
          · simp
          · exact ih (run + 1) hstart (succ_pos run) (by omega) (by omega)
        · exact ih 1 hstart one_pos (by omega) (by omega)
      · omega

lemma findRunBelow_eq_none_iff (s : Pmm) (pageCount limit : Nat) :
    s.findRunBelow pageCount limit = none ↔ ¬ s.HasLowRun pageCount limit := by
  constructor
  · rintro hnone ⟨htwo, hmax, start, hle, hrun, hlow⟩
    unfold findRunBelow at hnone
    rw [if_neg (by omega)] at hnone
    refine searchRun_ne_none hrun ?_ _ 1 (by omega) one_pos (by omega) (by omega) hnone
    intro i hi
    exact decide_eq_true (hlow i hi)
  · intro hno
    unfold findRunBelow
    split
    · rfl
    next hguard =>
      rw [Option.eq_none_iff_forall_ne_some]
      intro start hfound
      obtain ⟨hrun, hle⟩ := searchRun_top (by omega) hfound
      refine hno ⟨by omega, by omega, start, hle, hrun, ?_⟩
      intro i hi
      have huse := searchRun_usable one_pos (fun hlt => absurd hlt (lt_irrefl 1)) hfound i hi
      exact of_decide_eq_true huse

include hs

lemma Inv.hands_allocContiguousBelow (op : PmmOp)
    (pageCount limit : Nat) (hno : ¬ s.HasLowRun pageCount limit) :
    Hands op pageCount s (s.allocContiguousBelow pageCount limit) := by
  rw [← findRunBelow_eq_none_iff] at hno
  unfold allocContiguousBelow
  rw [hno]
  split
  · exact hs.hands_zero op pageCount
  split
  next hone =>
    rw [hone]
    exact hs.hands_allocPageBelow op limit
  · exact hs.hands_zero op pageCount

variable (hlow : s.HasLowRun pageCount limit)

include hlow

/-- A run found below a limit is taken off the stack, counted and left free. -/
lemma Inv.allocContiguousBelow_of_run :
    ∃ pages rest, pages = s.handedOut (.allocContiguousBelow pageCount limit) ∧
      pages ≠ [] ∧ s.stack.Perm (pages ++ rest) ∧
      (s.allocContiguousBelow pageCount limit).2 =
        setSlots pages .free 1 { s with stack := rest } := by
  rcases hfound : s.findRunBelow pageCount limit with _ | start
  · exact absurd hlow ((findRunBelow_eq_none_iff ..).mp hfound)
  have hguard := hfound
  unfold findRunBelow at hguard
  split at hguard
  · cases hguard
  next hroom =>
    obtain ⟨hrun, hle⟩ := searchRun_top (by omega) hguard
    have hmem : s.stack.getD (start + pageCount - 1) 0 ∈ s.stack := by
      rw [getD_eq_getElem _ _ (by omega)]
      exact getElem_mem _
    have hbase := (hs.stack _ hmem).1
    have hcall : s.allocContiguousBelow pageCount limit = (s.stack.getD (start + pageCount - 1) 0,
          setSlots (contiguousPages (s.stack.getD (start + pageCount - 1) 0) pageCount) .free 1
            (s.removeRun start pageCount)) := by
      unfold allocContiguousBelow
      rw [if_neg (by omega), if_neg (by omega), hfound]
      refine Prod.ext rfl (((hs.allFree (hrun.perm hle)).withStack _).foldl_eq ?_)
      intro s addr htrack hstate
      simp [pageRefSet, htrack.pageSlot, setSlot, ← hstate]
    refine ⟨_, _, ?_, ?_, hrun.perm hle, by rw [hcall]; rfl⟩
    · simp only [handedOut, hcall, if_neg hbase]
    · simp only [contiguousPages, ne_eq, map_eq_nil_iff, range_eq_nil]
      omega

/-- The pages that such an allocation hands out are free, counted and off the stack. -/
lemma Inv.status_of_run (hout : addr ∈ s.handedOut (.allocContiguousBelow pageCount limit)) :
    (s.allocContiguousBelow pageCount limit).2.Tracked addr ∧
      (s.allocContiguousBelow pageCount limit).2.status addr = ⟨.free, 1, 0⟩ := by
  obtain ⟨pages, rest, rfl, -, hperm, hafter⟩ := hs.allocContiguousBelow_of_run hlow
  have htrack := ((hs.allFree hperm).withStack rest).tracked
  have hrest : addr ∉ rest := fun hmem =>
    (nodup_append.mp (hperm.nodup_iff.mp hs.stack_nodup)).2.2 addr hout addr hmem rfl
  rw [hafter, status_setSlots _ .free 1 _ htrack addr (htrack addr hout),
    if_pos hout, count_eq_zero.mpr hrest]
  exact ⟨(tracked_congr (setSlots_phys ..) addr).mpr (htrack addr hout), rfl⟩

lemma Inv.not_pagesConsistent_of_run :
    ¬ (s.allocContiguousBelow pageCount limit).2.PagesConsistent := by
  obtain ⟨pages, -, rfl, hne, -⟩ := hs.allocContiguousBelow_of_run hlow
  obtain ⟨addr, hmem⟩ := exists_mem_of_ne_nil _ hne
  obtain ⟨htrack, hstat⟩ := hs.status_of_run hlow hmem
  intro hcons
  have hfree := (hcons addr htrack).eq_free_of_state (by rw [hstat])
  rw [hstat] at hfree
  cases hfree

omit hlow

omit hs

lemma Tracked.releasePage_of_free (htrack : s.Tracked addr)
    (hstate : (s.status addr).state = .free) : s.releasePage addr = (false, s) := by
  have hslot : s.state (s.slotOf addr) = .free := hstate
  simp [releasePage, htrack.pageSlot, hslot]

/-! ## References and reservation -/

/-- One page changes its state and count, and the stack changes at this page only. -/
lemma Inv.change_setSlot (hs : s.Inv) {op : PmmOp} {refs : Nat} {state : PageState}
    (htrack : s.Tracked addr) (hmem : ∀ other ∈ stack, other = addr ∨ other ∈ s.stack)
    (hcount : ∀ other, other ≠ addr → stack.count other = s.stack.count other)
    (hstep : PageStep op [] addr (s.status addr) ⟨state, refs, stack.count addr⟩) :
    Change op [] s { s.setSlot (s.slotOf addr) state refs with stack := stack } where
  phys := rfl
  trackedCount := rfl
  blank := setSlot_blank htrack state refs
  stack other hother := by
    rcases hmem other hother with rfl | hstack
    · exact htrack
    · exact hs.stack other hstack
  outTracked _ hout := absurd hout not_mem_nil
  pages other hother := by
    by_cases heq : other = addr
    · subst heq
      have hself := status_setSlot_self ({ s with stack := stack } : Pmm) other state refs
      exact hself ▸ hstep
    have hsame := status_setSlot_of_ne
      (s := { s with stack := stack }) ((tracked_congr rfl addr).mpr htrack)
      ((tracked_congr rfl other).mpr hother) heq state refs
    have hkept : ({ s with stack := stack } : Pmm).status other = s.status other := by
      simp only [status, hcount other heq]
      rfl
    have hpage : ({ s.setSlot (s.slotOf addr) state refs with stack := stack } : Pmm).status
        other = s.status other := hsame.trans hkept
    rw [hpage]
    exact .kept _ not_mem_nil

/-- A slot in use belongs to a tracked page. -/
lemma Inv.tracked_of_allocated (hs : s.Inv) (hslot : s.pageSlot addr = some index)
    (hstate : s.state index = .allocated) :
    s.Tracked addr ∧ index = s.slotOf addr ∧ s.status addr = .allocated (s.refCount index) := by
  obtain ⟨hfind, -, hphys⟩ := pageSlot_eq_some.mp hslot
  have htrack : s.Tracked addr := by
    refine ⟨?_, by rw [hslot]; rfl⟩
    rintro rfl
    have hblank := hs.index.blank index hphys
    rw [hstate] at hblank
    cases hblank
  subst hfind
  exact ⟨htrack, rfl, ((hs.pages addr htrack).eq_allocated_of_state hstate).1⟩

/-- Writing only the count of a slot. -/
lemma setRefCount_eq {state : PageState} (hstate : s.state index = state) (refs : Nat) :
    { s with refCount := Function.update s.refCount index refs } = s.setSlot index state refs := by
  simp [setSlot, ← hstate]

lemma Inv.change_retainPage (hs : s.Inv) (addr : Nat) :
    Change (.retainPage addr) [] s (s.retainPage addr).2 := by
  unfold retainPage
  split
  · exact hs.change_refl _
  split
  · exact hs.change_refl _
  next index hslot =>
    split
    · exact hs.change_refl _
    next hguard =>
      rw [not_or, not_not] at hguard
      obtain ⟨htrack, rfl, hstat⟩ := hs.tracked_of_allocated hslot hguard.1
      rw [setRefCount_eq hguard.1]
      refine hs.change_setSlot htrack (fun _ hmem => Or.inr hmem) (fun _ _ => rfl) ?_
      have hzero : s.stack.count addr = 0 := congrArg PageStatus.onStack hstat
      rw [hstat, hzero]
      exact .retained _ rfl not_mem_nil

/-- The call gives back the page. -/
def Releases (op : PmmOp) (physAddr : Nat) : Prop :=
  op = .releasePage physAddr ∨ op = .freePage physAddr

lemma Inv.change_releasePage (hs : s.Inv) {op : PmmOp} (hop : Releases op addr) :
    Change op [] s (s.releasePage addr).2 := by
  unfold releasePage
  split
  · exact hs.change_refl _
  split
  · exact hs.change_refl _
  next index hslot =>
    split
    · exact hs.change_refl _
    next hguard =>
      rw [not_or, not_not] at hguard
      obtain ⟨htrack, rfl, hstat⟩ := hs.tracked_of_allocated hslot hguard.1
      have hzero : s.stack.count addr = 0 := congrArg PageStatus.onStack hstat
      split
      next hmore =>
        rw [setRefCount_eq hguard.1]
        refine hs.change_setSlot htrack (fun _ hmem => Or.inr hmem) (fun _ _ => rfl) ?_
        rw [hstat, hzero]
        obtain ⟨refs, hrefs⟩ : ∃ refs, s.refCount (s.slotOf addr) = refs + 2 :=
          ⟨s.refCount (s.slotOf addr) - 2, by omega⟩
        rw [hrefs]
        exact .dropped refs hop not_mem_nil
      next hlast =>
        have hone : s.refCount (s.slotOf addr) = 1 := by omega
        have hroom := hs.stack_length_lt htrack (count_eq_zero.mp hzero)
        rw [if_neg (not_le.mpr hroom)]
        apply hs.change_setSlot htrack
        · intro other hother
          rcases mem_append.mp hother with hstack | hlast
          · exact Or.inr hstack
          · exact Or.inl (mem_singleton.mp hlast)
        · intro other hne
          rw [count_append, count_singleton, if_neg (by simpa using Ne.symm hne), add_zero]
        · rw [hstat, hone, count_append, count_singleton, hzero]
          simp only [beq_self_eq_true]
          exact .freed hop not_mem_nil

lemma setSlots_withStack (pages : List Nat) (state : PageState) (refs : Nat) (s : Pmm)
    (stack : List Nat) :
    { setSlots pages state refs s with stack := stack } =
      setSlots pages state refs { s with stack := stack } := by
  induction pages generalizing s with
  | nil => rfl
  | cons page rest ih => exact ih _

lemma Inv.change_reserveRange (hs : s.Inv) (base size : Nat) :
    Change (.reserveRange base size) [] s (s.reserveRange base size) := by
  unfold reserveRange
  split
  · exact hs.change_refl _
  split
  · exact hs.change_refl _
  next rawEnd _ =>
    dsimp only
    split
    · exact hs.change_refl _
    have hperm := filter_append_perm (fun addr =>
      rangeOverlaps addr (addr + pageSize) (alignDown base) (alignUp rawEnd)) s.stack
    have hwrite : ∀ (s : Pmm) (addr : Nat), s.Tracked addr → s.state (s.slotOf addr) = .free →
        s.pageReserve addr = s.setSlot (s.slotOf addr) .reserved 0 := by
      intro s addr htrack hstate
      simp [pageReserve, htrack.pageSlot, hstate]
    rw [(hs.allFree hperm.symm).foldl_eq hwrite, setSlots_withStack]
    apply hs.takeOff hperm.symm (nil_subset _)
    intro addr _
    exact .reserved base size rfl not_mem_nil

end Pmm

end NexOS.Mem
