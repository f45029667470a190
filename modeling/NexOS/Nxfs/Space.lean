import NexOS.Nxfs.Layout

/-! # The block allocator

What the loops over the bitmap compute, in terms of the bits of the blocks: a
range is set or cleared, a range is free, and the first free run of a length is
found across the blocks of the bitmap.
-/

namespace NexOS.Nxfs

open Disk Program Nat

namespace Super

/-- A data block whose bit is clear. -/
def Free (super : Super) (bits : Nat → Bool) (block : Nat) : Prop :=
  super.InData block ∧ bits block = false

instance (super : Super) (bits : Nat → Bool) (block : Nat) : Decidable (super.Free bits block) :=
  inferInstanceAs (Decidable (_ ∧ _))

/-- Free blocks in a row. -/
def FreeRun (super : Super) (bits : Nat → Bool) (start len : Nat) : Prop :=
  ∀ i < len, super.Free bits (start + i)

instance (super : Super) (bits : Nat → Bool) (start len : Nat) :
    Decidable (super.FreeRun bits start len) :=
  inferInstanceAs (Decidable (∀ i < len, _))

/-- The bits of a range are set. -/
def setRun (bits : Nat → Bool) (start len : Nat) (used : Bool) : Nat → Bool := fun block =>
  if start ≤ block ∧ block < start + len then used else bits block

end Super

namespace Layout

variable (L : Layout) {len start block index : Nat} {bits : Nat → Bool}

/-- Only the bitmap changes, to the given bits. -/
structure Marks (d d' : Disk) (bits : Nat → Bool) : Prop where
  bits : ∀ block < L.totalBlocks, L.bitAt d' block = bits block
  rest : d.Agree d' L.inodeStart wordLimit

variable {L} {d d' d'' : Disk}

lemma Marks.inodes (hmarks : L.Marks d d' bits) (hindex : index < maxInodes) :
    L.inodeAt d' index = L.inodeAt d index :=
  L.inodeAt_congr (hmarks.rest.mono le_rfl L.dataStart_small) hindex

lemma Marks.data (hmarks : L.Marks d d' bits) : d.Agree d' L.dataStart wordLimit :=
  hmarks.rest.mono L.inodeStart_le le_rfl

/-! ## Setting a range -/

/-- One round of `nxfs_bitmap_set_range`. -/
lemma bitAt_setBits (d : Disk) {chunk : Nat} (hblock : block < L.totalBlocks)
    (hchunk : block % bitsPerBlock + chunk ≤ bitsPerBlock) (used : Bool) :
    L.Marks d (Function.update d (UInt32.ofNat (L.bitmapStart + block / bitsPerBlock))
        ((d (UInt32.ofNat (L.bitmapStart + block / bitsPerBlock))).setBits
          (block % bitsPerBlock) chunk used))
      (Super.setRun (L.bitAt d) block chunk used) := by
  have hinodes := L.inodeStart_small
  have hbitmap := (L.bitmap_block_lt hblock).2
  refine ⟨?_, agree_update d _ (by omega) le_rfl (.inl hbitmap)⟩
  intro other hother
  have hbitmap' := (L.bitmap_block_lt hother).2
  have hbits : bitsPerBlock = 4096 := rfl
  unfold Super.bitAt Super.setRun
  by_cases heq : other / bitsPerBlock = block / bitsPerBlock
  · rw [heq, Function.update_self, Block.bitGet_setBits _ hchunk used (mod_lt _ (by decide))]
    have hiff : (block % bitsPerBlock ≤ other % bitsPerBlock ∧
        other % bitsPerBlock < block % bitsPerBlock + chunk) ↔
        (block ≤ other ∧ other < block + chunk) := by
      rw [hbits] at heq ⊢
      omega
    simp only [hiff, heq]
  · rw [Function.update_of_ne, if_neg]
    · rw [hbits] at heq hchunk
      omega
    · rw [ne_eq, ofNat_inj (by omega) (by omega)]
      exact fun hsame => heq (add_left_cancel hsame)

lemma exec_setRangeLoop (used : Bool) (hend : start + len ≤ L.totalBlocks)
    {fuel done : Nat} (hfuel : len ≤ done + fuel) (hdone : done ≤ len) (d : Disk) :
    ∃ d', (setRangeLoop L.toSuper start len used fuel done).exec serve d = (some (), d') ∧
      L.Marks d d' (Super.setRun (L.bitAt d) (start + done) (len - done) used) := by
  induction fuel generalizing done d with
  | zero =>
    refine ⟨d, rfl, fun block _ => ?_, Disk.Agree.refl _ _ _⟩
    rw [Super.setRun, if_neg (by omega)]
  | succ fuel ih =>
    unfold setRangeLoop
    split
    · have hbits : 0 < bitsPerBlock := by decide
      have hmod := mod_lt (start + done) hbits
      generalize hchunk : min (bitsPerBlock - (start + done) % bitsPerBlock) (len - done) = chunk
      have hblock : start + done < L.totalBlocks := by omega
      obtain ⟨hindex, -⟩ := L.bitmap_block_lt hblock
      have hround := bitAt_setBits d hblock
        (show (start + done) % bitsPerBlock + chunk ≤ bitsPerBlock by omega) used
      obtain ⟨d', hexec, hmarks⟩ := ih (show len ≤ done + chunk + fuel by omega) (by omega)
        (Function.update d (UInt32.ofNat (L.bitmapStart + (start + done) / bitsPerBlock))
          ((d (UInt32.ofNat (L.bitmapStart + (start + done) / bitsPerBlock))).setBits
            ((start + done) % bitsPerBlock) chunk used))
      refine ⟨d', ?_, ?_, hround.rest.trans hmarks.rest⟩
      · rw [exec_bind, exec_require, if_pos hindex]
        simp only [hchunk]
        exact hexec
      intro block hblock'
      rw [hmarks.bits block hblock', Super.setRun, Super.setRun, hround.bits block hblock',
        Super.setRun]
      split
      next hin => rw [if_pos (by omega)]
      next hout =>
        split
        next hin => rw [if_pos (by omega)]
        next hout' => rw [if_neg (by omega)]
    · refine ⟨d, rfl, fun block _ => ?_, Disk.Agree.refl _ _ _⟩
      rw [Super.setRun, if_neg (by omega)]

/-- A range inside the volume is set or cleared. -/
lemma exec_bitmapSetRange (hlen : len ≠ 0) (hend : start + len ≤ L.totalBlocks)
    (used : Bool) (d : Disk) :
    ∃ d', (bitmapSetRange L.toSuper start len used).exec serve d = (some (), d') ∧
      L.Marks d d' (Super.setRun (L.bitAt d) start len used) := by
  have htotal := L.total_small
  have hmod : (start + len) % wordLimit = start + len := mod_eq_of_lt (by omega)
  obtain ⟨d', hexec, hmarks⟩ := exec_setRangeLoop used hend (le_add_left len 0) (zero_le _) d
  refine ⟨d', ?_, hmarks⟩
  unfold bitmapSetRange
  rw [exec_bind, exec_require, if_pos ⟨hlen, by omega, by omega, by omega⟩]
  exact hexec

/-! ## Freeing extents -/

lemma exec_freeExtent (hlen : len ≠ 0) (hend : start + len ≤ L.totalBlocks) (d : Disk) :
    ∃ d', (freeExtent L.toSuper start len).exec serve d = (some (), d') ∧
      L.Marks d d' (Super.setRun (L.bitAt d) start len false) := by
  unfold freeExtent
  rw [if_neg hlen]
  exact exec_bitmapSetRange hlen hend false d

/-- Extents inside the volume are freed, all of them. -/
lemma exec_freeExtents {extents : List Extent} (hins : ∀ extent ∈ extents, extent.len ≠ 0 →
      extent.start + extent.len ≤ L.totalBlocks) (d : Disk) :
    ∃ d', (freeExtents L.toSuper extents).exec serve d = (some (), d') ∧ L.Marks d d' fun block =>
        if block ∈ extents.flatMap Extent.blocks then false
        else L.bitAt d block := by
  induction extents generalizing d with
  | nil => exact ⟨d, rfl, fun _ _ => by simp, Disk.Agree.refl _ _ _⟩
  | cons extent rest ih =>
    have hrest := fun e he => hins e (List.mem_cons_of_mem extent he)
    unfold freeExtents
    by_cases hlen : extent.len ≠ 0
    · obtain ⟨d₁, hfirst, hmarks₁⟩ :=
        exec_freeExtent hlen (hins extent List.mem_cons_self hlen) d
      obtain ⟨d₂, hsnd, hmarks₂⟩ := ih hrest d₁
      refine ⟨d₂, ?_, ?_, hmarks₁.rest.trans hmarks₂.rest⟩
      · rw [if_pos hlen, exec_bind, hfirst]
        exact hsnd
      · intro block hblock
        rw [hmarks₂.bits block hblock, hmarks₁.bits block hblock, Super.setRun]
        by_cases hin : extent.start ≤ block ∧ block < extent.start + extent.len
        · simp [hin]
        · simp [hin]
    · rw [if_neg hlen]
      rw [not_not] at hlen
      obtain ⟨d', hexec, hmarks⟩ := ih hrest d
      refine ⟨d', hexec, fun block hblock => ?_, hmarks.rest⟩
      rw [hmarks.bits block hblock, List.flatMap_cons, Extent.blocks, hlen]
      rfl

/-! ## Free ranges -/

/-- The blocks of one bitmap block have consecutive bits. -/
lemma bitAt_add (L : Layout) (d : Disk) {i : Nat} (hi : block % bitsPerBlock + i < bitsPerBlock) :
    L.bitAt d (block + i) = (d (UInt32.ofNat (L.bitmapStart + block / bitsPerBlock))).bitGet
        (block % bitsPerBlock + i) := by
  have hbits : bitsPerBlock = 4096 := rfl
  have hdiv : (block + i) / bitsPerBlock = block / bitsPerBlock := by
    rw [hbits] at hi ⊢
    omega
  have hmod : (block + i) % bitsPerBlock = block % bitsPerBlock + i := by
    rw [hbits] at hi ⊢
    omega
  rw [Super.bitAt, hdiv, hmod]

lemma exec_rangeFreeLoop {rangeEnd : Nat} (hend : rangeEnd ≤ L.totalBlocks) {fuel : Nat}
    (hfuel : rangeEnd ≤ block + fuel) (hblock : block ≤ rangeEnd) (d : Disk) :
    (rangeFreeLoop L.toSuper rangeEnd fuel block).exec serve d =
      (some (decide (∀ i < rangeEnd - block, L.bitAt d (block + i) = false)), d) := by
  induction fuel generalizing block with
  | zero =>
    have hzero : rangeEnd - block = 0 := by omega
    simp [rangeFreeLoop, hzero]
  | succ fuel ih =>
    unfold rangeFreeLoop
    by_cases hlt : block < rangeEnd
    · generalize hlimit : (if block / bitsPerBlock = (L.totalBlocks - 1) / bitsPerBlock then
          min bitsPerBlock (L.totalBlocks - block / bitsPerBlock * bitsPerBlock)
        else bitsPerBlock) = limit
      generalize hcount : min (limit - block % bitsPerBlock) (rangeEnd - block) = count
      have hbits : bitsPerBlock = 4096 := rfl
      have hrange : 0 < count ∧ block % bitsPerBlock + count ≤ bitsPerBlock ∧
          count ≤ rangeEnd - block := by
        rw [hbits] at hlimit hcount ⊢
        split at hlimit
        · omega
        · omega
      have hbit : ∀ i < count, L.bitAt d (block + i) =
          (d (UInt32.ofNat (L.bitmapStart + block / bitsPerBlock))).bitGet
            (block % bitsPerBlock + i) := fun i hi => L.bitAt_add d (by omega)
      rw [if_pos hlt, exec_bind, exec_attempt, exec_readBlock]
      simp only [hlimit, hcount]
      split
      next hany =>
        rw [List.any_eq_true] at hany
        obtain ⟨i, hi, hset⟩ := hany
        rw [List.mem_range] at hi
        rw [← hbit i hi] at hset
        have hnot : ¬∀ i < rangeEnd - block, L.bitAt d (block + i) = false := by
          intro hall
          rw [hall i (by omega)] at hset
          cases hset
        simp [hnot]
      next hnone =>
        rw [ih (by omega) (by omega)]
        have hiff : (∀ i < rangeEnd - (block + count), L.bitAt d (block + count + i) = false) ↔
            ∀ i < rangeEnd - block, L.bitAt d (block + i) = false := by
          constructor
          · intro hall i hi
            by_cases hfirst : i < count
            · rw [hbit i hfirst]
              rw [List.any_eq_true] at hnone
              rw [← Bool.not_eq_true]
              exact fun hset => hnone ⟨i, List.mem_range.mpr hfirst, hset⟩
            · have hlater := hall (i - count) (by omega)
              rwa [show block + count + (i - count) = block + i by omega] at hlater
          · intro hall i hi
            rw [add_assoc]
            exact hall (count + i) (by omega)
        simp only [hiff]
    · have hzero : rangeEnd - block = 0 := by omega
      rw [if_neg hlt]
      simp [hzero]

/-- `nxfs_range_is_free` decides whether a range is a free run. -/
lemma exec_rangeIsFree (hlen : len ≠ 0) (d : Disk) :
    (rangeIsFree L.toSuper start len).exec serve d =
      (some (decide (L.FreeRun (L.bitAt d) start len)), d) := by
  unfold rangeIsFree
  split
  next hout =>
    have hnot : ¬L.FreeRun (L.bitAt d) start len := by
      intro hfree
      obtain ⟨⟨hfirst, -⟩, -⟩ := hfree 0 (pos_of_ne_zero hlen)
      obtain ⟨⟨-, hlast⟩, -⟩ := hfree (len - 1) (by omega)
      omega
    simp [hnot]
  next hin =>
    rw [exec_rangeFreeLoop (by omega) le_rfl (le_add_right _ _)]
    have hiff : (∀ i < start + len - start, L.bitAt d (start + i) = false) ↔
        L.FreeRun (L.bitAt d) start len := by
      constructor
      · intro hall i hi
        exact ⟨⟨by omega, by omega⟩, hall i (by omega)⟩
      · intro hfree i hi
        exact (hfree i (by omega)).2
    simp only [hiff]

/-! ## First fit -/

/-- What the scan of the bitmap knows when it has looked at the blocks before
`position`: the longest free run that ends there, and that no free run of the
wanted length lies before. -/
structure Scanned (layout : Layout) (bits : Nat → Bool) (len position : Nat) (run : Run) :
    Prop where
  short : run.len < len
  start : run.len ≠ 0 → run.start + run.len = position
  free : run.len ≠ 0 → layout.FreeRun bits run.start run.len
  longest : ∀ start, start ≤ position → layout.FreeRun bits start (position - start) →
    position - start ≤ run.len
  none_before : ∀ start, start + len ≤ position → ¬layout.FreeRun bits start len

/-- The first free run of a length. -/
structure FirstRun (layout : Layout) (bits : Nat → Bool) (len start : Nat) : Prop where
  free : layout.FreeRun bits start len
  first : ∀ other < start, ¬layout.FreeRun bits other len

section Scan

variable {bits : Nat → Bool} {len position : Nat} {run : Run}

lemma scanned_zero (L : Layout) (bits : Nat → Bool) (hlen : len ≠ 0) :
    L.Scanned bits len 0 ⟨0, 0⟩ where
  short := pos_of_ne_zero hlen
  start h := absurd rfl h
  free h := absurd rfl h
  longest start hle _ := by simp
  none_before start hle := by omega

variable (hscan : L.Scanned bits len position run)

include hscan

/-- A block that is not free ends every run. -/
lemma Scanned.skip (hused : ¬L.Free bits position) (start : Nat) :
    L.Scanned bits len (position + 1) ⟨start, 0⟩ := by
  have hshort := hscan.short
  refine ⟨Nat.lt_of_le_of_lt (Nat.zero_le _) hshort, fun h => absurd rfl h,
    fun h => absurd rfl h, ?_, ?_⟩
  · intro other hle hfree
    by_cases hlt : other ≤ position
    · have hlast := hfree (position - other) (by omega)
      rw [Nat.add_sub_cancel' hlt] at hlast
      exact absurd hlast hused
    · omega
  · intro other hle hfree
    by_cases hlt : other + len ≤ position
    · exact hscan.none_before other hlt hfree
    · have hlast := hfree (position - other) (by omega)
      rw [Nat.add_sub_cancel' (by omega)] at hlast
      exact hused hlast

variable (hfree : L.Free bits position)

include hfree

/-- The run that a free block continues or starts. -/
lemma Scanned.freeRun_succ :
    (if run.len = 0 then position else run.start) + (run.len + 1) = position + 1 ∧
      L.FreeRun bits (if run.len = 0 then position else run.start) (run.len + 1) := by
  by_cases hzero : run.len = 0
  · rw [hzero]
    refine ⟨rfl, fun i hi => ?_⟩
    obtain rfl : i = 0 := by omega
    exact hfree
  · have hstart := hscan.start hzero
    rw [if_neg hzero]
    refine ⟨by omega, fun i hi => ?_⟩
    by_cases hlast : i < run.len
    · exact hscan.free hzero i hlast
    · rw [show run.start + i = position by omega]
      exact hfree

lemma Scanned.grow (hshort : run.len + 1 < len) : L.Scanned bits len (position + 1)
      ⟨if run.len = 0 then position else run.start, run.len + 1⟩ := by
  obtain ⟨hstart, hrun⟩ := hscan.freeRun_succ hfree
  have hlong : ∀ other, other ≤ position + 1 →
      L.FreeRun bits other (position + 1 - other) → position + 1 - other ≤ run.len + 1 := by
    intro other hle hother
    by_cases hlt : other ≤ position
    · have hbefore := hscan.longest other hlt fun i hi => hother i (by omega)
      omega
    · omega
  refine ⟨hshort, fun _ => hstart, fun _ => hrun, hlong, ?_⟩
  intro other hle hother
  by_cases hlt : other + len ≤ position
  · exact hscan.none_before other hlt hother
  · have hlen : position + 1 - other = len := by omega
    have htoo := hlong other (by omega) (by rw [hlen]; exact hother)
    omega

lemma Scanned.found (hlong : len ≤ run.len + 1) :
    L.FirstRun bits len (if run.len = 0 then position else run.start) := by
  obtain ⟨hstart, hrun⟩ := hscan.freeRun_succ hfree
  refine ⟨fun i hi => hrun i (by omega), fun other hlt => ?_⟩
  exact hscan.none_before other (by omega)

omit hfree

/-- Once every block has been looked at, there is no free run of the length. -/
lemma Scanned.none_of_end
    (hend : L.totalBlocks ≤ position) (start : Nat) : ¬L.FreeRun bits start len := by
  intro hfree
  have hshort := hscan.short
  have hlast := (hfree (len - 1) (by omega)).1.2
  exact hscan.none_before start (by omega) hfree

end Scan

/-- How a scan up to `position` ends. -/
def ScanEnds (layout : Layout) (bits : Nat → Bool) (len position : Nat) : Nat ⊕ Run → Prop
  | .inl start => layout.FirstRun bits len start
  | .inr run => layout.Scanned bits len position run

/-- The scan of a bitmap block. -/
lemma scanBits_spec (d : Disk) {base : Nat} (hbase : base = index * bitsPerBlock)
    {count bit : Nat} {run : Run} (hlimit : bit + count ≤ bitsPerBlock)
    (hend : base + (bit + count) ≤ L.totalBlocks)
    (hscan : L.Scanned (L.bitAt d) len (base + bit) run) :
    L.ScanEnds (L.bitAt d) len (base + (bit + count))
      (scanBits L.toSuper (d (UInt32.ofNat (L.bitmapStart + index))) base len count bit run) := by
  induction count generalizing bit run with
  | zero => exact hscan
  | succ count ih =>
    have hbit : L.bitAt d (base + bit) = (d (UInt32.ofNat (L.bitmapStart + index))).bitGet bit := by
      have hpos : 0 < bitsPerBlock := by decide
      have hmod : index * bitsPerBlock % bitsPerBlock = 0 := Nat.mul_mod_left _ _
      rw [hbase, L.bitAt_add d (by omega), hmod, Nat.mul_div_cancel _ hpos, Nat.zero_add]
    rw [show bit + (count + 1) = bit + 1 + count by omega] at hlimit hend ⊢
    unfold scanBits
    by_cases hbefore : base + bit < L.dataStart
    · rw [if_pos hbefore]
      have hused : ¬L.Free (L.bitAt d) (base + bit) := fun hfree =>
        absurd hfree.1.1 (Nat.not_le_of_lt hbefore)
      -- Before the data region no block is free, so the scan is in no run.
      have hzero : run.len = 0 := by
        by_contra hne
        have hstart := hscan.start hne
        have hlast := (hscan.free hne (run.len - 1) (by omega)).1.1
        omega
      have hskip := hscan.skip hused run.start
      rw [← hzero] at hskip
      exact ih hlimit hend hskip
    · rw [if_neg hbefore]
      by_cases hset : (d (UInt32.ofNat (L.bitmapStart + index))).bitGet bit = true
      · rw [if_pos hset]
        refine ih hlimit hend (hscan.skip ?_ run.start)
        rintro ⟨-, hclear⟩
        rw [hbit, hset] at hclear
        cases hclear
      · rw [if_neg hset]
        have hfree : L.Free (L.bitAt d) (base + bit) := by
          refine ⟨⟨by omega, by omega⟩, ?_⟩
          rw [hbit]
          simpa using hset
        by_cases hlong : len ≤ run.len + 1
        · rw [if_pos hlong]
          exact hscan.found hfree hlong
        · rw [if_neg hlong]
          exact ih hlimit hend (hscan.grow hfree (Nat.lt_of_not_le hlong))

/-- How an allocation of `len` blocks ends: no free run is long enough, or the
first one that is gets marked. -/
inductive Allocates (layout : Layout) (d : Disk) (len : Nat) : Option Nat → Disk → Prop where
  | none (hnone : ∀ start, ¬layout.FreeRun (layout.bitAt d) start len) :
      Allocates layout d len none d
  | found {start : Nat} {d' : Disk} (hfirst : layout.FirstRun (layout.bitAt d) len start)
      (hmarks : layout.Marks d d' (Super.setRun (layout.bitAt d) start len true)) :
      Allocates layout d len (if start < 2 ^ 31 then some start else none) d'

lemma ends_allocScan (hlen : len ≠ 0) (d : Disk) {count : Nat} {run : Run}
    (hcount : index + count = L.bitmapBlockCount)
    (hindex : index * bitsPerBlock ≤ L.totalBlocks)
    (hscan : L.Scanned (L.bitAt d) len (index * bitsPerBlock) run) :
    (allocScan L.toSuper len count index run).Ends serve d (L.Allocates d len) := by
  induction count generalizing index run with
  | zero =>
    refine .none (hscan.none_of_end ?_)
    have hcovers := L.bitmap_covers
    rw [add_zero] at hcount
    rw [hcount]
    exact hcovers
  | succ count ih =>
    have htotal := L.total_small
    have hbase : index * bitsPerBlock % wordLimit = index * bitsPerBlock :=
      mod_eq_of_lt (hindex.trans_lt htotal)
    unfold allocScan
    simp only [hbase]
    split
    next hover => exact .none (hscan.none_of_end hover)
    next hins =>
      generalize hlimit : min bitsPerBlock (L.totalBlocks - index * bitsPerBlock) = limit
      refine Program.Ends.bind_of_some (exec_readBlock _ d) ?_
      have hlimitLe : 0 + limit ≤ bitsPerBlock := by omega
      have hlimitEnd : index * bitsPerBlock + (0 + limit) ≤ L.totalBlocks := by omega
      have hscan₀ : L.Scanned (L.bitAt d) len (index * bitsPerBlock + 0) run := by
        rw [add_zero]
        exact hscan
      have hspec := scanBits_spec d rfl hlimitLe hlimitEnd hscan₀
      split
      next start hfound =>
        rw [hfound] at hspec
        have hlast := (hspec.free (len - 1) (by omega)).1.2
        have hend : start + len ≤ L.totalBlocks := by omega
        obtain ⟨d', hexec, hmarks⟩ := exec_bitmapSetRange hlen hend true d
        refine Program.Ends.bind_of_some hexec ?_
        have hdone := Allocates.found hspec hmarks
        refine ends_require_bind ?_ ?_
        · intro hbig
          rwa [if_neg hbig] at hdone
        · intro hsmall
          rw [if_pos hsmall] at hdone
          exact hdone
      next run' hrun =>
        rw [hrun] at hspec
        split
        next hpart => exact .none (hspec.none_of_end (by omega))
        next hfull =>
          rw [not_not] at hfull
          rw [hfull] at hspec hlimit
          refine ih (by omega) ?_ ?_
          · rw [succ_mul]
            omega
          · rw [succ_mul]
            exact hspec

/-- First fit across the whole bitmap. -/
lemma ends_allocExtent (hlen : len ≠ 0) (d : Disk) :
    (allocExtent L.toSuper len).Ends serve d (L.Allocates d len) := by
  unfold allocExtent
  rw [if_neg hlen]
  refine ends_allocScan hlen d (zero_add _) (by omega) ?_
  exact scanned_zero L _ hlen

/-! ## Complete allocation -/

/-- The first free run of the length is returned and marked, and an allocation fails only
if there is no free run of the length. -/
def AllocatesFirst (layout : Layout) (d : Disk) (len : Nat) : Option Nat × Disk → Prop
  | (some start, d') => layout.FirstRun (layout.bitAt d) len start ∧
      layout.Marks d d' (Super.setRun (layout.bitAt d) start len true)
  | (none, _) => ∀ start, ¬layout.FreeRun (layout.bitAt d) start len

lemma FirstRun.unique {other : Nat} (hfirst : L.FirstRun bits len start)
    (hother : L.FirstRun bits len other) : start = other := by
  rcases lt_trichotomy start other with hlt | heq | hgt
  · exact absurd hfirst.free (hother.first start hlt)
  · exact heq
  · exact absurd hother.free (hfirst.first other hgt)

lemma allocatesFirst_iff (hlen : len ≠ 0) :
    L.AllocatesFirst d len ((allocExtent L.toSuper len).exec serve d) ↔
      ∀ start, L.FirstRun (L.bitAt d) len start → start < 2 ^ 31 := by
  have hends := @ends_allocExtent L len hlen d
  unfold Program.Ends at hends
  generalize (allocExtent L.toSuper len).exec serve d = result at hends ⊢
  obtain ⟨found, d'⟩ := result
  change L.Allocates d len found d' at hends
  cases hends with
  | none hnone => exact iff_of_true hnone fun start hfirst => absurd hfirst.free (hnone start)
  | @found start _ hfirst hmarks =>
    by_cases hsmall : start < 2 ^ 31
    · rw [if_pos hsmall]
      exact iff_of_true ⟨hfirst, hmarks⟩ fun other hother => hfirst.unique hother ▸ hsmall
    · -- the bits of the run are set, and its start is taken for a failure
      rw [if_neg hsmall]
      exact iff_of_false (fun hnone => hnone start hfirst.free) fun hall =>
        hsmall (hall start hfirst)

/-- Extents are allocated completely exactly if the first free run of the length starts
below `2 ^ 31`, where its start is not negative as an `int`. -/
theorem allocExtent_first_iff (layout : Layout) (d : Disk) {len : Nat} (hlen : 1 ≤ len) :
    layout.AllocatesFirst d len ((allocExtent layout.toSuper len).exec serve d) ↔
      ∀ start, layout.FirstRun (layout.bitAt d) len start → start < 2 ^ 31 :=
  allocatesFirst_iff (ne_of_gt hlen)

/-- A volume of one block more than an `int` can number. -/
def huge : Layout where
  totalBlocks := 2 ^ 31 + 1
  bitmapStart := 1
  inodeStart := 2 ^ 19 + 2
  dataStart := 2 ^ 19 + 228
  bitmap_covers := by decide
  inodes_fit := by decide
  inodes_small := by decide
  data_le := by decide
  total_small := by decide

/-- A disk of zeros. -/
def allClear : Disk := fun _ _ => 0

/-- On a volume with a clear bitmap, a run that goes over the end of a bitmap block is
allocated. -/
theorem allocExtent_first_clear : huge.AllocatesFirst allClear bitsPerBlock
      ((allocExtent huge.toSuper bitsPerBlock).exec serve allClear) := by
  rw [@allocExtent_first_iff huge allClear bitsPerBlock (by decide)]
  intro start hfirst
  by_contra hlarge
  have hstart : huge.dataStart = 2 ^ 19 + 228 := rfl
  refine hfirst.first huge.dataStart (by omega) fun i hi => ?_
  have htotal : huge.totalBlocks = 2 ^ 31 + 1 := rfl
  have hbits : bitsPerBlock = 4096 := rfl
  refine ⟨⟨by omega, by omega⟩, ?_⟩
  unfold Super.bitAt Block.bitGet Block.byte
  exact zero_testBit _

/-- A bitmap with one clear bit, far behind. -/
def lastFree : Disk := fun block i =>
  if block = UInt32.ofNat (2 ^ 19 + 1) ∧ i.val = 0 then 0xfe else 0xff

lemma bitAt_lastFree (hblock : block < 2 ^ 31) : huge.bitAt lastFree block = true := by
  have hne : UInt32.ofNat (1 + block / bitsPerBlock) ≠ UInt32.ofNat (2 ^ 19 + 1) := by
    have hdiv : block / bitsPerBlock < 2 ^ 19 := Nat.div_lt_of_lt_mul (by exact hblock)
    rw [ne_eq, ofNat_inj (by unfold wordLimit; omega) (by decide)]
    omega
  have hbyte : lastFree (UInt32.ofNat (1 + block / bitsPerBlock)) = fun _ => 0xff := by
    funext i
    exact if_neg fun h => hne h.1
  have hbit : ∀ k < 8, (0xff : UInt8).toNat.testBit k = true := by decide
  change ((lastFree (UInt32.ofNat (1 + block / bitsPerBlock))).byte _).toNat.testBit _ = true
  rw [hbyte]
  exact hbit _ (mod_lt _ (by decide))

/-- The one free block is marked as used and not returned. -/
theorem allocExtent_lastFree : huge.FirstRun (huge.bitAt lastFree) 1 (2 ^ 31) ∧
      ¬huge.AllocatesFirst lastFree 1 ((allocExtent huge.toSuper 1).exec serve lastFree) := by
  have hfirst : huge.FirstRun (huge.bitAt lastFree) 1 (2 ^ 31) := by
    constructor
    · intro i hi
      obtain rfl : i = 0 := by omega
      exact ⟨by decide, by decide +kernel⟩
    · intro other hlt hfree
      have hbit := (hfree 0 one_pos).2
      rw [add_zero, bitAt_lastFree hlt] at hbit
      cases hbit
  rw [@allocatesFirst_iff huge 1 lastFree (by decide)]
  exact ⟨hfirst, fun hall => Nat.lt_irrefl _ (hall _ hfirst)⟩

end Layout

end NexOS.Nxfs
