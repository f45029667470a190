import NexOS.Nxfs.Packed
import NexOS.Nxfs.ReadRuns

/-! # Files as bytes

A file is a sequence of bytes, which lie in its blocks one after another. A read
returns a part of that sequence. Positions are computed in 32 bits, so that the last
block that is read below `2 ^ 32` is the one before the last.
-/

namespace NexOS.Nxfs

open Nat

open Program (attempt require ofOption fail)

variable {k : Nat}

namespace Inode

variable {inode : Inode} {d : Disk} {limit : Nat}

/-- A byte of a file. -/
def byteAt (inode : Inode) (d : Disk) (position : Nat) : UInt8 :=
  (d (UInt32.ofNat (inode.blocks.getD (position / blockSize) 0))).byte (position % blockSize)

/-- The bytes of a file from a position on. -/
def bytes (inode : Inode) (d : Disk) (start count : Nat) : List UInt8 :=
  (List.range' start count).map (inode.byteAt d)

lemma bytes_append (inode : Inode) (d : Disk) (start first second : Nat) :
    inode.bytes d start (first + second) =
      inode.bytes d start first ++ inode.bytes d (start + first) second := by
  rw [bytes, bytes, bytes, ← List.map_append, List.range'_append_1]

/-- A part of a block of the file. -/
lemma slice_eq_bytes {block place chunk : Nat} (hblock : inode.blocks[k]? = some block)
    (hend : place + chunk ≤ blockSize) :
    (d (UInt32.ofNat block)).slice place chunk = inode.bytes d (k * blockSize + place) chunk := by
  unfold Block.slice bytes
  rw [List.range'_eq_map_range, List.map_map]
  apply List.map_congr_left
  intro i hi
  rw [List.mem_range] at hi
  have hdiv : (k * blockSize + place + i) / blockSize = k := by
    unfold blockSize at hend ⊢
    omega
  have hmod : (k * blockSize + place + i) % blockSize = place + i := by
    unfold blockSize at hend ⊢
    omega
  rw [Function.comp_apply, byteAt, hdiv, hmod, List.getD_eq_getElem?_getD, hblock]
  rfl

end Inode

/-! ## Reading -/

/-- The file can be read up to its end: no position wraps, and every block below its
size is there with a number that is no negative `int`. -/
structure Inode.Readable (inode : Inode) : Prop where
  small : inode.size + blockSize ≤ wordLimit
  block : ∀ k, k * blockSize < inode.size → ∃ block, inode.blocks[k]? = some block ∧ block < 2 ^ 31

/-- A request for a part of a file that is not empty. -/
structure ReadRequest.Valid (req : ReadRequest) (inode : Inode) : Prop where
  starts : req.offset < req.requestEnd
  ends : req.requestEnd ≤ inode.size
  fits : req.requestEnd - req.offset ≤ req.bufferSize
  reaches : req.requestEnd ≤ req.lastBlock * blockSize
  needed : ∀ k < req.lastBlock, k * blockSize < req.requestEnd

section Reading

variable {inode : Inode} {req : ReadRequest} {limit : Nat} {d : Disk}

lemma Inode.Bounded.block_of_physical (hbound : inode.Bounded limit) {logical physical : Nat}
    (hphys : inode.logicalToPhysical logical = some physical) :
    inode.blocks[logical]? = some physical ∧ physical < 2 ^ 31 := by
  rw [hbound.logicalToPhysical, Option.filter_eq_some_iff, decide_eq_true_iff] at hphys
  exact hphys

lemma Inode.Bounded.physical_of_block (hbound : inode.Bounded limit) {logical physical : Nat}
    (hblock : inode.blocks[logical]? = some physical) (hsmall : physical < 2 ^ 31) :
    inode.logicalToPhysical logical = some physical := by
  rw [hbound.logicalToPhysical, hblock, Option.filter_some, if_pos (decide_eq_true hsmall)]

lemma ReadRequest.Valid.inside (hread : inode.Readable) (hvalid : req.Valid inode) :
    req.Inside inode where
  starts := hvalid.starts
  ends := hvalid.ends
  fits := hvalid.fits
  needed := hvalid.needed
  small := (Nat.add_le_add_right hvalid.ends blockSize).trans hread.small

lemma Inode.Bounded.physicalWord (hbound : inode.Bounded limit) (hread : inode.Readable)
    (hk : k * blockSize < inode.size) :
    inode.blocks[k]? = some (inode.physicalWord k) ∧ inode.physicalWord k < 2 ^ 31 := by
  obtain ⟨block, hblock, hsmall⟩ := hread.block k hk
  obtain ⟨hword, -⟩ :=
    Inode.physicalWord_of_logicalToPhysical (hbound.physical_of_block hblock hsmall)
  rw [hword]
  exact ⟨hblock, hsmall⟩

/-- The blocks of a readable file give its bytes. -/
lemma piecesOf_eq_bytes (hbound : inode.Bounded limit) (hread : inode.Readable)
    (hvalid : req.Valid inode) (d : Disk) {count : Nat} (hk : req.offset < (k + 1) * blockSize)
    (hlast : k + count ≤ req.lastBlock) :
    piecesOf inode req d k count =
      inode.bytes d (req.position k) (req.position (k + count) - req.position k) := by
  have hins := hvalid.inside hread
  induction count with
  | zero =>
    rw [Nat.add_zero, Nat.sub_self]
    rfl
  | succ count ih =>
    have hlater : req.offset < (k + count + 1) * blockSize :=
      hk.trans_le (Nat.mul_le_mul_right blockSize (by omega))
    have hneed := hins.needed (k + count) hlast
    obtain ⟨hblock, -⟩ := hbound.physicalWord hread (hneed.trans_le hins.ends)
    have hpos := hins.position_eq (show k + count < req.lastBlock from hlast)
    obtain ⟨hnext, hless⟩ := hins.position_succ hlater hlast
    have hmono := req.position_mono (Nat.le_add_right k count)
    have hfits : req.position (k + count) - (k + count) * blockSize +
        (req.position (k + count + 1) - req.position (k + count)) ≤ blockSize := by
      rw [Nat.add_mul (k + count)] at hnext
      omega
    have hpiece : pieceOf inode req d (k + count) = inode.bytes d (req.position (k + count))
        (req.position (k + count + 1) - req.position (k + count)) := by
      rw [pieceOf, Inode.slice_eq_bytes hblock hfits, Nat.add_sub_cancel' (by omega)]
    have hsplit : req.position (k + count + 1) - req.position k =
        (req.position (k + count) - req.position k) +
          (req.position (k + count + 1) - req.position (k + count)) := by omega
    rw [piecesOf_add, piecesOf_one, ih (Nat.le_of_succ_le hlast), hpiece, ← Nat.add_assoc, hsplit,
      Inode.bytes_append, Nat.add_sub_cancel' hmono]

/-- The loop reads the request. -/
lemma exec_readRangeLoop (hbound : inode.Bounded limit) (hread : inode.Readable)
    (hvalid : req.Valid inode) (d : Disk) (hfirst : k * blockSize ≤ req.offset)
    (hk : req.offset < (k + 1) * blockSize) :
    (readRangeLoop inode req req.lastBlock k 0).exec Disk.serve d =
      (some (inode.bytes d req.offset (req.requestEnd - req.offset)), d) := by
  have hins := hvalid.inside hread
  have hstarts := hvalid.starts
  have hreaches := hvalid.reaches
  have hbegin : req.position k = req.offset := by
    unfold ReadRequest.position reached
    omega
  have hlast : k < req.lastBlock :=
    Nat.lt_of_mul_lt_mul_right (hfirst.trans_lt (hstarts.trans_le hreaches))
  have hacc : ¬Refused inode req k := by
    rintro ⟨first, -, hlt, -, hlarge⟩
    have hneed := hins.needed first hlt
    have hsmall := (hbound.physicalWord hread (hneed.trans_le hins.ends)).2
    exact Nat.not_lt_of_le hlarge hsmall
  have hloop := (exec_readRangeLoop_runs hins d (Nat.le_add_left _ k) hk
    fun _ => runPlace_first hfirst).2 hacc
  have hend : req.position (k + (req.lastBlock - k)) = req.requestEnd := by
    rw [Nat.add_sub_cancel' hlast.le]
    unfold ReadRequest.position reached
    omega
  rw [hbegin, Nat.sub_self] at hloop
  rw [hloop, piecesOf_eq_bytes hbound hread hvalid d hk (by omega), hend, hbegin]

/-- The number of the block behind a position, computed in 32 bits. -/
lemma lastBlock_eq {stop : Nat} (hsmall : stop + blockSize ≤ wordLimit) :
    (stop + blockSize - 1) % wordLimit / blockSize = (stop + blockSize - 1) / blockSize := by
  have hpos : 0 < blockSize := by decide
  rw [mod_eq_of_lt (by omega)]

/-- A read of a readable file returns its bytes, as far as they go. -/
lemma exec_readFileRange (hbound : inode.Bounded limit) (hread : inode.Readable)
    (htype : inode.type = typeFile) (d : Disk) {start : Nat} (hstart : start ≤ inode.size)
    (count : Nat) :
    (readFileRange inode start count).exec Disk.serve d =
      (some (inode.bytes d start (min count (inode.size - start))), d) := by
  have hreq : (require (inode.type = typeFile ∧ start ≤ inode.size) : FsM Unit).exec
      Disk.serve d = (some (), d) := by
    rw [Program.exec_require, if_pos ⟨htype, hstart⟩]
  unfold readFileRange
  rw [Program.exec_bind_of_some _ hreq]
  split
  · rw [show min count (inode.size - start) = 0 by omega]
    rfl
  dsimp only
  have hsmall := hread.small
  have hpos : 0 < blockSize := by decide
  have hend : (if inode.size - start < count then inode.size else (start + count) % wordLimit) =
      start + min count (inode.size - start) := by
    split
    · omega
    · rw [Nat.mod_eq_of_lt (by omega)]
      omega
  rw [hend, lastBlock_eq (by omega), hbound.blockCount]
  generalize hrequest : start + min count (inode.size - start) = stop
  have hlast : (stop + blockSize - 1) / blockSize ≤ inode.blocks.length := by
    have hprev : ((stop + blockSize - 1) / blockSize - 1) * blockSize < inode.size := by
      have hdiv := Nat.div_mul_le_self (stop + blockSize - 1) blockSize
      rw [Nat.sub_mul]
      omega
    obtain ⟨block, hblock, -⟩ := hread.block _ hprev
    have hlt := (List.getElem?_eq_some_iff.mp hblock).1
    omega
  rw [min_eq_left hlast]
  have hvalid : (ReadRequest.mk start count stop
      ((stop + blockSize - 1) / blockSize)).Valid inode := by
    refine ⟨by dsimp only; omega, by dsimp only; omega, by dsimp only; omega, ?_, ?_⟩
    · have hmod := lt_div_mul_add (a := stop + blockSize - 1) hpos
      dsimp only
      omega
    · intro k hk
      have hmul := (le_div_iff_mul_le hpos).mp (succ_le_of_lt hk)
      rw [succ_mul] at hmul
      dsimp only
      omega
  have hfirst : start < (start / blockSize + 1) * blockSize := by
    rw [add_mul]
    exact lt_div_mul_add hpos
  have hloop := exec_readRangeLoop hbound hread hvalid d (div_mul_le_self start blockSize) hfirst
  rw [hloop, show stop - start = min count (inode.size - start) by omega]

/-- A file that ends in the last block below `2 ^ 32` cannot be read at its end. -/
lemma exec_readFileRange_wrapped (htype : inode.type = typeFile)
    (hlarge : wordLimit < inode.size + blockSize) (hsize : inode.size < wordLimit) (d : Disk) :
    (readFileRange inode (inode.size - 1) 1).exec Disk.serve d = (some [], d) := by
  have hreq : (require (inode.type = typeFile ∧ inode.size - 1 ≤ inode.size) : FsM Unit).exec
      Disk.serve d = (some (), d) := by
    rw [Program.exec_require, if_pos ⟨htype, Nat.sub_le _ _⟩]
  have hword : blockSize < wordLimit := by decide
  unfold readFileRange
  rw [Program.exec_bind_of_some _ hreq, if_neg (by omega)]
  dsimp only
  have hend : (if inode.size - (inode.size - 1) < 1 then inode.size
      else (inode.size - 1 + 1) % wordLimit) = inode.size := by
    rw [if_neg (by omega), Nat.sub_add_cancel (by omega), Nat.mod_eq_of_lt hsize]
  have hwrapped : (inode.size + blockSize - 1) % wordLimit / blockSize = 0 := by
    rw [mod_eq_sub_mod (by omega), mod_eq_of_lt (by omega), div_eq_of_lt (by omega)]
  rw [hend, hwrapped]
  rfl

/-- A block with a negative number cannot be read. -/
lemma exec_readFileRange_stuck (hbound : inode.Bounded limit) (htype : inode.type = typeFile)
    (hsmall : inode.size + blockSize ≤ wordLimit) (hk : k * blockSize < inode.size)
    (hlen : k < inode.blocks.length) (hstuck : inode.logicalToPhysical k = none) (d : Disk) :
    (readFileRange inode (k * blockSize) 1).exec Disk.serve d = (none, d) := by
  have hreq : (require (inode.type = typeFile ∧ k * blockSize ≤ inode.size) : FsM Unit).exec
      Disk.serve d = (some (), d) := by
    rw [Program.exec_require, if_pos ⟨htype, hk.le⟩]
  have hpos : 0 < blockSize := by decide
  unfold readFileRange
  rw [Program.exec_bind_of_some _ hreq, if_neg (by omega)]
  dsimp only
  have hend : (if inode.size - k * blockSize < 1 then inode.size
      else (k * blockSize + 1) % wordLimit) = k * blockSize + 1 := by
    rw [if_neg (by omega), Nat.mod_eq_of_lt (by omega)]
  have hlast : (k * blockSize + 1 + blockSize - 1) / blockSize = k + 1 := by
    rw [Nat.add_right_comm, ← Nat.succ_mul]
    exact Nat.mul_div_cancel _ hpos
  rw [hend, lastBlock_eq (by omega), hlast, hbound.blockCount, Nat.min_eq_left hlen,
    Nat.mul_div_cancel _ hpos]
  have hpiece : ∀ req done, (readPiece inode req k done).exec Disk.serve d = (none, d) := by
    intro req done
    unfold readPiece
    rw [hstuck]
    rfl
  unfold readRangeLoop
  rw [if_pos ⟨lt_succ_self k, one_pos⟩, Program.exec_bind_of_none _ (hpiece _ _)]

/-- If every part of a file can be read, the file is readable. -/
lemma readable_of_reads (hbound : inode.Bounded limit) (htype : inode.type = typeFile)
    (hsize : inode.size < wordLimit) (hcov : inode.size ≤ inode.blocks.length * blockSize)
    (hreads : ∀ start ≤ inode.size, ∀ count < wordLimit,
      ∃ bytes, (readFileRange inode start count).exec Disk.serve d = (some bytes, d) ∧
        bytes.length = min count (inode.size - start)) : inode.Readable := by
  have hone : 1 < wordLimit := by decide
  have hsmall : inode.size + blockSize ≤ wordLimit := by
    by_contra hlarge
    have hlarge := Nat.lt_of_not_le hlarge
    obtain ⟨bytes, hexec, hlen⟩ := hreads (inode.size - 1) (Nat.sub_le _ _) 1 hone
    rw [exec_readFileRange_wrapped htype hlarge hsize] at hexec
    cases hexec
    have hword : blockSize < wordLimit := by decide
    rw [List.length_nil] at hlen
    omega
  refine ⟨hsmall, fun k hk => ?_⟩
  have hlen : k < inode.blocks.length := Nat.lt_of_mul_lt_mul_right (hk.trans_le hcov)
  cases hphys : inode.logicalToPhysical k with
  | some physical => exact ⟨physical, hbound.block_of_physical hphys⟩
  | none =>
    obtain ⟨bytes, hexec, -⟩ := hreads (k * blockSize) hk.le 1 hone
    rw [exec_readFileRange_stuck hbound htype hsmall hk hlen hphys] at hexec
    cases hexec

end Reading

end NexOS.Nxfs
