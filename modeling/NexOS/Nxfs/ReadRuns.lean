import NexOS.Nxfs.Layout

/-! # Blocks that are read together

The loop of `nxfs_read_file_range` reads whole blocks that follow one another on the
disk with one request. The blocks of a read fall into runs, and every block has a place
in its run, which depends on the extents and on the request alone. The loop looks at the
sign of a block number only where a run begins.
-/

namespace NexOS.Nxfs

open Nat

open Program (ofOption)

/-! ## Block numbers -/

namespace Inode

lemma physicalFrom_eq_word (logical : Nat) (extents : List Extent) (base : Nat) :
    physicalFrom logical extents base =
      if physicalWordFrom logical extents base < 2 ^ 31 then
        some (physicalWordFrom logical extents base)
      else none := by
  induction extents generalizing base with
  | nil => rfl
  | cons extent rest ih =>
    unfold physicalFrom physicalWordFrom
    by_cases hlt : logical < (base + extent.len) % wordLimit
    · rw [if_pos hlt, if_pos hlt]
    · rw [if_neg hlt, if_neg hlt, ih]

lemma logicalToPhysical_eq_word (inode : Inode) (logical : Nat) :
    inode.logicalToPhysical logical =
      if inode.physicalWord logical < 2 ^ 31 then some (inode.physicalWord logical) else none :=
  physicalFrom_eq_word logical inode.extents 0

lemma physicalWord_of_logicalToPhysical {inode : Inode} {logical physical : Nat}
    (hphys : inode.logicalToPhysical logical = some physical) :
    inode.physicalWord logical = physical ∧ physical < 2 ^ 31 := by
  rw [logicalToPhysical_eq_word] at hphys
  split at hphys
  next hsmall =>
    rw [Option.some.injEq] at hphys
    exact ⟨hphys, hphys ▸ hsmall⟩
  · cases hphys

end Inode

/-! ## Windows -/

/-- Below the last block, the window is what the block and the request have in common. -/
lemma readWindow_eq {size off stop k : Nat} (hk : (k + 1) * blockSize < wordLimit) :
    readWindow size off stop k =
      if max off (k * blockSize) < min (min ((k + 1) * blockSize) size) stop then
        some (max off (k * blockSize) - k * blockSize,
          min (min ((k + 1) * blockSize) size) stop - max off (k * blockSize))
      else none := by
  rw [add_mul, one_mul] at hk ⊢
  unfold readWindow calcBlockWindow
  dsimp only
  rw [mod_eq_of_lt (show k * blockSize < wordLimit by omega), mod_eq_of_lt hk]
  split
  · rw [if_neg (by omega)]
    rfl
  split
  next hempty =>
    rw [if_neg (Nat.not_lt_of_le hempty)]
    rfl
  next hempty =>
    rw [if_pos (Nat.lt_of_not_le hempty)]
    rfl

/-- How far a request from `offset` to `requestEnd` is served before a block. -/
def reached (offset requestEnd k : Nat) : Nat := min requestEnd (max offset (k * blockSize))

namespace ReadRequest

/-- Where the read stands after so many blocks. -/
def position (req : ReadRequest) (k : Nat) : Nat := reached req.offset req.requestEnd k

/-- A request that is not empty and lies in the file, where no position wraps. -/
structure Inside (req : ReadRequest) (inode : Inode) : Prop where
  starts : req.offset < req.requestEnd
  ends : req.requestEnd ≤ inode.size
  fits : req.requestEnd - req.offset ≤ req.bufferSize
  needed : ∀ k < req.lastBlock, k * blockSize < req.requestEnd
  small : req.requestEnd + blockSize ≤ wordLimit

/-- All of the block is read. -/
def Whole (req : ReadRequest) (k : Nat) : Prop :=
  req.offset ≤ k * blockSize ∧ (k + 1) * blockSize ≤ req.requestEnd

instance (req : ReadRequest) (k : Nat) : Decidable (req.Whole k) :=
  inferInstanceAs (Decidable (_ ∧ _))

variable {inode : Inode} {req : ReadRequest} {k : Nat} (hins : req.Inside inode)

include hins

lemma Inside.position_eq (hlast : k < req.lastBlock) :
    req.position k = max req.offset (k * blockSize) := by
  have hstarts := hins.starts
  have hneed := hins.needed k hlast
  unfold position reached
  omega

variable (hk : req.offset < (k + 1) * blockSize)

include hk

lemma Inside.position_succ (hlast : k < req.lastBlock) :
    req.position (k + 1) = min ((k + 1) * blockSize) req.requestEnd ∧
      req.position k < req.position (k + 1) := by
  have hneed := hins.needed k hlast
  have hstarts := hins.starts
  have hpos : 0 < blockSize := by decide
  have hnext : req.position (k + 1) = min ((k + 1) * blockSize) req.requestEnd := by
    unfold position reached
    omega
  rw [hnext, hins.position_eq hlast]
  rw [add_mul] at hk ⊢
  omega

/-- Every block of the request has a window, from where the block before it left off to
where the next block starts. -/
lemma Inside.readWindow_eq (hlast : k < req.lastBlock) :
    readWindow inode.size req.offset req.requestEnd k =
      some (req.position k - k * blockSize, req.position (k + 1) - req.position k) := by
  have hneed := hins.needed k hlast
  have hsmall := hins.small
  have hends := hins.ends
  obtain ⟨hnext, hless⟩ := hins.position_succ hk hlast
  have hedge : min (min ((k + 1) * blockSize) inode.size) req.requestEnd =
      req.position (k + 1) := by
    omega
  rw [Nxfs.readWindow_eq (by rw [add_mul]; omega), hedge, ← hins.position_eq hlast, if_pos hless]

lemma Inside.whole_iff (hlast : k < req.lastBlock) :
    (req.position k - k * blockSize = 0 ∧ req.position (k + 1) - req.position k = blockSize) ↔
      req.Whole k := by
  have hneed := hins.needed k hlast
  have hpos := hins.position_eq hlast
  have hnext := (hins.position_succ hk hlast).1
  unfold Whole
  rw [add_mul] at hnext ⊢
  omega

omit hk

omit hins

lemma Whole.position_eq (hwhole : req.Whole k) : req.position k = k * blockSize := by
  have hend := hwhole.2
  have hoff := hwhole.1
  rw [add_mul] at hend
  unfold position reached
  omega

end ReadRequest

/-! ## Runs -/

section Runs

variable (inode : Inode) (req : ReadRequest)

/-- The next block follows this one on the disk, and both are read whole. -/
def Joined (k : Nat) : Prop := req.Whole k ∧ req.Whole (k + 1) ∧
    inode.physicalWord (k + 1) = (inode.physicalWord k + 1) % wordLimit

instance (k : Nat) : Decidable (Joined inode req k) := inferInstanceAs (Decidable (_ ∧ _))

/-- The place of a block in the run that it is read in. A run begins at place 0 and has
at most `readRunMax` blocks. -/
def runPlace : Nat → Nat
  | 0 => 0
  | k + 1 => if Joined inode req k ∧ runPlace k + 1 < readRunMax then runPlace k + 1 else 0

/-- The blocks from `k` on are a run, or the beginning of one. -/
def IsRun (k run : Nat) : Prop := ∀ j < run, runPlace inode req (k + j) = j

/-- From `k` on, some run of the request begins with a block whose number is negative
as an `int`. -/
def Refused (k : Nat) : Prop :=
  ∃ first, k ≤ first ∧ first < req.lastBlock ∧ runPlace inode req first = 0 ∧
    2 ^ 31 ≤ inode.physicalWord first

/-- What a block gives to the request, if it is looked for where the word says. -/
def pieceOf (d : Disk) (k : Nat) : List UInt8 :=
  (d (UInt32.ofNat (inode.physicalWord k))).slice (req.position k - k * blockSize)
    (req.position (k + 1) - req.position k)

/-- What blocks in a row give to the read. -/
def piecesOf (d : Disk) (k count : Nat) : List UInt8 :=
  (List.range' k count).flatMap (pieceOf inode req d)

variable {inode req} {k run : Nat} {d : Disk}

/-- The block that the request starts in begins a run. -/
lemma runPlace_first (hfirst : k * blockSize ≤ req.offset) : runPlace inode req k = 0 := by
  cases k with
  | zero => rfl
  | succ k =>
    refine if_neg fun hboth => ?_
    have hwhole := hboth.1.1.1
    rw [add_mul] at hfirst
    have hpos : 0 < blockSize := by decide
    omega

lemma isRun_one (hstart : runPlace inode req k = 0) : IsRun inode req k 1 := by
  intro j hj
  obtain rfl : j = 0 := by omega
  exact hstart

variable (hrun : IsRun inode req k run) {j : Nat}

include hrun

lemma IsRun.succ (hpos : 0 < run) (hmax : run < readRunMax)
    (hjoin : Joined inode req (k + run - 1)) : IsRun inode req k (run + 1) := by
  intro j hj
  rcases Nat.lt_succ_iff_lt_or_eq.mp hj with hlt | rfl
  · exact hrun j hlt
  · obtain ⟨last, rfl⟩ := exists_eq_succ_of_ne_zero hpos.ne'
    have hplace := hrun last (lt_succ_self last)
    rw [add_succ, runPlace, hplace, if_pos ⟨hjoin, hmax⟩]

/-- A block that is not the first of its run is joined to the one before. -/
lemma IsRun.joined (hj : j + 1 < run) : Joined inode req (k + j) := by
  have hplace := hrun (j + 1) hj
  rw [← add_assoc, runPlace] at hplace
  split at hplace
  next hboth => exact hboth.1
  · exact absurd hplace (succ_ne_zero j).symm

lemma IsRun.whole (hwhole : req.Whole k) (hj : j < run) : req.Whole (k + j) := by
  cases j with
  | zero => exact hwhole
  | succ j => exact (hrun.joined hj).2.1

lemma IsRun.physicalWord (hsmall : inode.physicalWord k < 2 ^ 31) (hj : j < run) :
    inode.physicalWord (k + j) = (inode.physicalWord k + j) % wordLimit := by
  induction j with
  | zero =>
    refine (mod_eq_of_lt (hsmall.trans ?_)).symm
    decide
  | succ j ih =>
    rw [← add_assoc, (hrun.joined hj).2.2, ih (lt_of_succ_lt hj), mod_add_mod, add_assoc]

omit hrun

/-- The blocks that are read together are a run, and as much of it as the request has. -/
lemma extendRun_spec (hins : req.Inside inode) (hwhole : req.Whole k) {fuel : Nat}
    (hrun : IsRun inode req k run) (hpos : 0 < run) (hmax : run ≤ readRunMax)
    (hlast : k + run ≤ req.lastBlock) (hfuel : req.lastBlock ≤ k + run + fuel) :
    ∃ total, extendRun inode req k (req.position k - req.offset) fuel run
        (inode.physicalWord (k + run - 1)) = total ∧
      0 < total ∧ total ≤ readRunMax ∧ k + total ≤ req.lastBlock ∧ IsRun inode req k total ∧
      (k + total < req.lastBlock → runPlace inode req (k + total) = 0) := by
  induction fuel generalizing run with
  | zero => exact ⟨run, rfl, hpos, hmax, hlast, hrun, fun hmore => by omega⟩
  | succ fuel ih =>
    -- where the loop stops before the end of the request, the next block begins a run
    have hstop : ¬(run < readRunMax ∧ Joined inode req (k + run - 1)) →
        k + run < req.lastBlock → runPlace inode req (k + run) = 0 := by
      intro hnot _
      obtain ⟨last, rfl⟩ := Nat.exists_eq_succ_of_ne_zero hpos.ne'
      have hplace := hrun last (Nat.lt_succ_self last)
      rw [Nat.add_succ, runPlace, hplace]
      exact if_neg fun hboth => hnot ⟨hboth.2, hboth.1⟩
    unfold extendRun
    by_cases hmore : k + run < req.lastBlock
    · by_cases hroom : run < readRunMax
      · have hneed := hins.needed _ hmore
        have hsmall := hins.small
        have hfits := hins.fits
        have hposition := hwhole.position_eq
        have hbuf : (req.position k - req.offset + run * blockSize) % wordLimit <
            req.bufferSize := by
          rw [Nat.add_mul] at hneed
          rw [Nat.mod_eq_of_lt] <;> have := hwhole.1 <;> omega
        have hlater : req.offset < (k + run + 1) * blockSize := by
          have hoff := hwhole.1
          unfold blockSize at hoff ⊢
          omega
        have hwindow : (readWindow inode.size req.offset req.requestEnd (k + run) =
            some (0, blockSize)) ↔ req.Whole (k + run) := by
          rw [hins.readWindow_eq hlater hmore, Option.some.injEq, Prod.mk.injEq]
          exact hins.whole_iff hlater hmore
        have hprev : req.Whole (k + run - 1) := by
          rw [Nat.add_sub_assoc hpos]
          exact hrun.whole hwhole (Nat.sub_lt hpos Nat.one_pos)
        rw [if_pos ⟨hmore, hroom, hbuf⟩]
        have hsucc : k + run - 1 + 1 = k + run := by omega
        by_cases hjoin : Joined inode req (k + run - 1)
        · have hnext := hjoin.2.2
          have hwholeNext := hjoin.2.1
          rw [hsucc] at hnext hwholeNext
          rw [if_pos ⟨hnext, hwindow.mpr hwholeNext⟩]
          exact ih (hrun.succ hpos hroom hjoin) (succ_pos run) hroom hmore (by omega)
        · rw [if_neg]
          · exact ⟨run, rfl, hpos, hmax, hlast, hrun, hstop fun hboth => hjoin hboth.2⟩
          intro hboth
          refine hjoin ⟨hprev, ?_, ?_⟩
          · rw [hsucc]
            exact hwindow.mp hboth.2
          · rw [hsucc]
            exact hboth.1
      · rw [if_neg fun hall => hroom hall.2.1]
        exact ⟨run, rfl, hpos, hmax, hlast, hrun, hstop fun hboth => hroom hboth.1⟩
    · rw [if_neg fun hall => hmore hall.1]
      exact ⟨run, rfl, hpos, hmax, hlast, hrun, fun h => absurd h hmore⟩

end Runs

/-! ## The loop -/

section Loop

variable {inode : Inode} {req : ReadRequest} {k : Nat} {d : Disk}

lemma exec_readBlocks (d : Disk) (start : Nat) {count : Nat} (hcount : count < wordLimit) :
    (readBlocks start count).exec Disk.serve d =
      (some (d.readBlocks (UInt32.ofNat start) count), d) := by
  change (some (d.readBlocks (UInt32.ofNat start) (UInt32.ofNat count).toNat), d) = _
  rw [UInt32.toNat_ofNat_of_lt' hcount]

lemma piecesOf_add (first second : Nat) : piecesOf inode req d k (first + second) =
      piecesOf inode req d k first ++ piecesOf inode req d (k + first) second := by
  rw [piecesOf, piecesOf, piecesOf, ← List.flatMap_append, List.range'_append_1]

lemma piecesOf_one : piecesOf inode req d k 1 = pieceOf inode req d k := by
  rw [piecesOf, List.range'_one, List.flatMap_singleton]

lemma length_pieceOf : (pieceOf inode req d k).length = req.position (k + 1) - req.position k := by
  rw [pieceOf, Block.slice, List.length_map, List.length_range]

lemma ReadRequest.position_mono (req : ReadRequest) {first second : Nat} (hle : first ≤ second) :
    req.position first ≤ req.position second := by
  have hmul := mul_le_mul_right blockSize hle
  unfold ReadRequest.position reached
  omega

lemma length_piecesOf (count : Nat) :
    (piecesOf inode req d k count).length = req.position (k + count) - req.position k := by
  induction count with
  | zero => exact (Nat.sub_self _).symm
  | succ count ih =>
    have hfirst := req.position_mono (le_add_right k count)
    have hnext := req.position_mono (le_add_right (k + count) 1)
    rw [piecesOf_add, piecesOf_one, List.length_append, length_pieceOf, ← add_assoc]
    omega

/-- Blocks that are read together give what each of them gives. -/
lemma flatMap_readBlocks_words {run start : Nat}
    (hwords : ∀ j < run, UInt32.ofNat (inode.physicalWord (k + j)) = UInt32.ofNat (start + j))
    (hwhole : ∀ j < run, req.Whole (k + j)) :
    ((d.readBlocks (UInt32.ofNat start) run).flatMap fun block => block.slice 0 blockSize) =
      piecesOf inode req d k run := by
  induction run generalizing k start with
  | zero => rfl
  | succ run ih =>
    have hrest : ∀ j < run, UInt32.ofNat (inode.physicalWord (k + 1 + j)) =
        UInt32.ofNat (start + 1 + j) := by
      intro j hj
      have hnext := hwords (j + 1) (Nat.succ_lt_succ hj)
      rwa [← Nat.add_assoc, ← Nat.add_assoc, Nat.add_right_comm k, Nat.add_right_comm start]
        at hnext
    have hrestWhole : ∀ j < run, req.Whole (k + 1 + j) := by
      intro j hj
      rw [Nat.add_right_comm]
      exact hwhole (j + 1) (Nat.succ_lt_succ hj)
    have hfirst : req.Whole k := hwhole 0 (Nat.succ_pos run)
    have hplace : req.position k - k * blockSize = 0 := by
      rw [hfirst.position_eq, Nat.sub_self]
    have hcount : req.position (k + 1) - req.position k = blockSize := by
      have hend := hfirst.2
      have hoff := hfirst.1
      unfold ReadRequest.position reached
      rw [add_mul] at hend ⊢
      omega
    have hpiece : pieceOf inode req d k = (d (UInt32.ofNat start)).slice 0 blockSize := by
      rw [pieceOf, hplace, hcount]
      exact congrArg (fun block => (d block).slice 0 blockSize) (hwords 0 (succ_pos run))
    have hsucc : UInt32.ofNat start + 1 = UInt32.ofNat (start + 1) :=
      (UInt32.ofNat_add start 1).symm
    rw [Disk.readBlocks, List.flatMap_cons, hsucc, ih hrest hrestWhole, add_comm run,
      piecesOf_add, piecesOf_one, hpiece]

/-- One round reads a run, if the number of its first block is not negative. -/
lemma exec_readPiece (hins : req.Inside inode) (d : Disk)
    (hk : req.offset < (k + 1) * blockSize) (hlast : k < req.lastBlock)
    (hstart : runPlace inode req k = 0) (hsmall : inode.physicalWord k < 2 ^ 31) :
    ∃ count, 0 < count ∧ k + count ≤ req.lastBlock ∧ IsRun inode req k count ∧
      (k + count < req.lastBlock → runPlace inode req (k + count) = 0) ∧
      (readPiece inode req k (req.position k - req.offset)).exec Disk.serve d =
        (some (piecesOf inode req d k count, count), d) := by
  have hphys : (ofOption (inode.logicalToPhysical k) : FsM Nat).exec Disk.serve d =
      (some (inode.physicalWord k), d) := by
    rw [inode.logicalToPhysical_eq_word, if_pos hsmall]
    exact Program.exec_ofOption _ _ _
  unfold readPiece
  rw [Program.exec_bind_of_some _ hphys, hins.readWindow_eq hk hlast]
  dsimp only
  by_cases hwhole : req.Whole k
  · rw [if_pos ((hins.whole_iff hk hlast).mpr hwhole)]
    obtain ⟨count, hcount, hpos, hmax, hend, hrun, hnext⟩ := extendRun_spec hins hwhole
      (isRun_one hstart) one_pos (by decide) hlast
      (show req.lastBlock ≤ k + 1 + req.lastBlock by omega)
    have hread := exec_readBlocks d (inode.physicalWord k)
      (hmax.trans_lt (show readRunMax < wordLimit by decide))
    refine ⟨count, hpos, hend, hrun, hnext, ?_⟩
    rw [show k + 1 - 1 = k from rfl] at hcount
    have hwords : ∀ j < count, UInt32.ofNat (inode.physicalWord (k + j)) =
        UInt32.ofNat (inode.physicalWord k + j) := by
      intro j hj
      rw [hrun.physicalWord hsmall hj]
      exact UInt32.ofNat_mod_size
    rw [hcount, Program.exec_bind_of_some _ hread,
      flatMap_readBlocks_words hwords fun j hj => hrun.whole hwhole hj]
    rfl
  · rw [if_neg fun hboth => hwhole ((hins.whole_iff hk hlast).mp hboth)]
    refine ⟨1, one_pos, hlast, isRun_one hstart, fun _ => ?_, ?_⟩
    · exact if_neg fun hboth => hwhole hboth.1.1
    · rw [piecesOf_one]
      rfl

/-- A round that starts with a negative block number fails. -/
lemma exec_readPiece_refused (hlarge : 2 ^ 31 ≤ inode.physicalWord k) (done : Nat) (d : Disk) :
    (readPiece inode req k done).exec Disk.serve d = (none, d) := by
  unfold readPiece
  rw [inode.logicalToPhysical_eq_word, if_neg (Nat.not_lt_of_le hlarge)]
  rfl

/-- The loop gives what the blocks give one by one, unless a run is refused. -/
lemma exec_readRangeLoop_runs (hins : req.Inside inode) (d : Disk) {fuel : Nat}
    (hfuel : req.lastBlock ≤ k + fuel) (hk : req.offset < (k + 1) * blockSize)
    (hstart : k < req.lastBlock → runPlace inode req k = 0) :
    (Refused inode req k → (readRangeLoop inode req fuel k (req.position k - req.offset)).exec
        Disk.serve d = (none, d)) ∧
      (¬Refused inode req k → (readRangeLoop inode req fuel k (req.position k - req.offset)).exec
        Disk.serve d = (some (piecesOf inode req d k (req.lastBlock - k)), d)) := by
  induction fuel generalizing k with
  | zero =>
    refine ⟨fun ⟨first, hle, hlt, _⟩ => by omega, fun _ => ?_⟩
    rw [Nat.sub_eq_zero_of_le (show req.lastBlock ≤ k from hfuel)]
    rfl
  | succ fuel ih =>
    unfold readRangeLoop
    by_cases hlast : k < req.lastBlock
    · have hmore : req.position k - req.offset < req.bufferSize := by
        have hneed := hins.needed k hlast
        have hfits := hins.fits
        have hstarts := hins.starts
        rw [hins.position_eq hlast]
        omega
      rw [if_pos ⟨hlast, hmore⟩]
      by_cases hsmall : inode.physicalWord k < 2 ^ 31
      · obtain ⟨count, hpos, hend, hrun, hnext, hpiece⟩ :=
          exec_readPiece hins d hk hlast (hstart hlast) hsmall
        have hlater : req.offset < (k + count + 1) * blockSize :=
          hk.trans_le (Nat.mul_le_mul_right blockSize (by omega))
        have hoff : req.offset ≤ req.position k := by
          rw [hins.position_eq hlast]
          exact Nat.le_max_left _ _
        have hdone : req.position k - req.offset + (piecesOf inode req d k count).length =
            req.position (k + count) - req.offset := by
          have hmono := req.position_mono (Nat.le_add_right k count)
          rw [length_piecesOf]
          omega
        -- inside the run only its first block begins a run, and that one is not negative
        have hrefuse : Refused inode req k ↔ Refused inode req (k + count) := by
          constructor
          · rintro ⟨first, hle, hlt, hplace, hlarge⟩
            refine ⟨first, ?_, hlt, hplace, hlarge⟩
            by_contra hbefore
            have hinRun := hrun (first - k) (by omega)
            rw [Nat.add_sub_cancel' hle] at hinRun
            obtain rfl : first = k := by omega
            omega
          · rintro ⟨first, hle, hfirst⟩
            exact ⟨first, by omega, hfirst⟩
        have hrest := ih (show req.lastBlock ≤ k + count + fuel by omega) hlater hnext
        rw [← hrefuse] at hrest
        rw [Program.exec_bind_of_some _ hpiece]
        dsimp only
        rw [hdone]
        refine ⟨fun hyes => Program.exec_bind_of_none _ (hrest.1 hyes) _, fun hno => ?_⟩
        rw [Program.exec_bind_of_some _ (hrest.2 hno),
          show req.lastBlock - k = count + (req.lastBlock - (k + count)) by omega, piecesOf_add]
        rfl
      · have hlarge := Nat.le_of_not_lt hsmall
        have hyes : Refused inode req k := ⟨k, Nat.le_refl k, hlast, hstart hlast, hlarge⟩
        rw [Program.exec_bind_of_none _ (exec_readPiece_refused hlarge _ d)]
        exact ⟨fun _ => rfl, fun hno => absurd hyes hno⟩
    · rw [if_neg fun hboth => hlast hboth.1, Nat.sub_eq_zero_of_le (Nat.le_of_not_lt hlast)]
      exact ⟨fun ⟨first, hle, hlt, _⟩ => absurd (hle.trans_lt hlt) hlast, fun _ => rfl⟩

end Loop

end NexOS.Nxfs
