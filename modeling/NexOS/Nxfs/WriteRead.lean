import NexOS.Nxfs.FileBytes
import NexOS.Nxfs.Accounting

/-! # Reading back what was written

A write puts its bytes into the blocks of the file that they belong to, after it has
grown the file by zeroed blocks. Read back, the file has the new bytes where they were
written, zeros between the old end and the first of them, and the old bytes elsewhere.
This is so unless the file would end in the last block below `2 ^ 32`, a block cannot
be read because its number is negative as an `int`, or the old blocks hold something
behind the end of the file.
-/

namespace NexOS.Nxfs

open Disk List Nat Option

open Program (attempt require ofOption fail)

namespace Layout

variable {L : Layout} {inode : Inode} {d d' : Disk}
  {off k written i index : Nat} {data : List UInt8} {inode' : Inode}

/-! ## Bytes of blocks -/

/-- Writing one block of a file changes its bytes. -/
lemma Within.byteAt_update (hwithin : L.Within inode) {block : Nat}
    (hblock : inode.blocks[k]? = some block) (data : Block)
    (hi : i / blockSize < inode.blocks.length) :
    inode.byteAt (Function.update d (UInt32.ofNat block) data) i =
      if i / blockSize = k then data.byte (i % blockSize) else inode.byteAt d i := by
  obtain ⟨other, hother⟩ : ∃ other, inode.blocks[i / blockSize]? = some other :=
    ⟨_, getElem?_eq_getElem hi⟩
  unfold Inode.byteAt
  rw [getD_eq_getElem?_getD, hother, getD_some]
  split
  next heq =>
    rw [heq, hblock, Option.some.injEq] at hother
    rw [← hother, Function.update_self]
  next hne =>
    have hdiffer : other ≠ block := by
      rintro rfl
      exact hne ((getElem?_inj hi hwithin.nodup).mp (hother.trans hblock.symm))
    rw [Function.update_of_ne]
    rw [ne_eq, ofNat_inj (InData.small (hwithin.inside _ (mem_of_getElem? hother)))
      (InData.small (hwithin.inside _ (mem_of_getElem? hblock)))]
    exact hdiffer

/-- The bytes of a file lie in its blocks. -/
lemma byteAt_congr
    (hsame : ∀ block ∈ inode.blocks, d' (UInt32.ofNat block) = d (UInt32.ofNat block))
    (hi : i / blockSize < inode.blocks.length) : inode.byteAt d' i = inode.byteAt d i := by
  unfold Inode.byteAt
  rw [getD_eq_getElem?_getD, getElem?_eq_getElem hi, getD_some, hsame _ (getElem_mem hi)]

/-! ## Writing -/

/-- The byte at a position after a write of `data` at `offset`, with the byte that was
there before. -/
def putByte (offset : Nat) (data : List UInt8) (i : Nat) (old : UInt8) : UInt8 :=
  if offset ≤ i ∧ i < offset + data.length then data.getD (i - offset) 0 else old

/-- A position and the block that it lies in. -/
lemma block_bounds (hi : i / blockSize = k) :
    k * blockSize ≤ i ∧ i < k * blockSize + blockSize ∧ i % blockSize = i - k * blockSize := by
  subst hi
  have hmod := div_add_mod i blockSize
  have hlt := mod_lt i (show blockSize > 0 by decide)
  rw [mul_comm] at hmod
  omega

/-- What a request writes into a block that it reaches from `first` to `last`. -/
lemma overlay_window {first last : Nat} (hfirst : first = max off (k * blockSize))
    (hlast : last = min (k * blockSize + blockSize) (off + data.length))
    (hi : i / blockSize = k) (old : UInt8) :
    (overlay (first - k * blockSize) ((data.drop (first - off)).take (last - first))
      (i % blockSize)).getD old = putByte off data i old := by
  obtain ⟨hle, hlt, hmod⟩ := block_bounds hi
  unfold overlay putByte
  by_cases hins : off ≤ i ∧ i < off + data.length
  · have hindex : i % blockSize - (first - k * blockSize) = i - first := by omega
    have hpos : first - off + (i - first) = i - off := by omega
    rw [if_pos (by omega), if_pos hins, hindex, getElem?_take_of_lt (by omega),
      getElem?_drop, hpos, getD_eq_getElem?_getD,
      getElem?_eq_getElem (by omega)]
    rfl
  · rw [if_neg hins]
    split
    · rw [getElem?_eq_none]
      · rfl
      · rw [length_take, length_drop]
        omega
    · rfl

/-- A write of one block, as far as it has come before and after. -/
lemma ends_writeChunk_bytes (hwithin : L.Within inode)
    (hk : (k + 1) * blockSize < wordLimit) (d : Disk) :
    (writeChunk inode off (off + data.length) data k
      (reached off (off + data.length) k - off)).Ends serve d fun r d' =>
      ∀ done, r = some done → done = reached off (off + data.length) (k + 1) - off ∧
        (∃ block, inode.blocks[k]? = some block ∧ block < 2 ^ 31) ∧
        ∀ i, i / blockSize < inode.blocks.length → inode.byteAt d' i =
          if i / blockSize = k then putByte off data i (inode.byteAt d i)
          else inode.byteAt d i := by
  have hread : (readInodeBlock inode k).Ends serve d fun r d' => d' = d ∧
      ∀ block, r = some block → ∃ physical, inode.blocks[k]? = some physical ∧ physical < 2 ^ 31 ∧
        block = d (UInt32.ofNat physical) := by
    refine Program.ends_ofOption_bind (fun _ => ⟨rfl, nofun⟩) fun physical hphys => ?_
    obtain ⟨hblock, hsmall⟩ := hwithin.bounded.block_of_physical hphys
    refine ⟨rfl, fun block hread => ⟨physical, hblock, hsmall, ?_⟩⟩
    exact (Option.some.inj hread).symm
  have hwindow : writeWindow off (off + data.length) k =
      readWindow (off + data.length) off (off + data.length) k := rfl
  rw [readWindow_eq hk] at hwindow
  rw [add_mul, one_mul] at hk hwindow
  unfold writeChunk
  refine Program.Ends.bind hread (fun _ _ => nofun) fun block d₁ h => ?_
  obtain ⟨rfl, hblock⟩ := h
  obtain ⟨physical, hphys, hsmall, rfl⟩ := hblock block rfl
  have hbyte : ∀ i, i / blockSize = k →
      inode.byteAt d₁ i = (d₁ (UInt32.ofNat physical)).byte (i % blockSize) := by
    intro i hi
    rw [Inode.byteAt, hi, getD_eq_getElem?_getD, hphys]
    rfl
  rw [hwindow]
  split
  next hnone =>
    refine Program.ends_pure fun done hdone => ?_
    cases hdone
    split at hnone
    · cases hnone
    next hempty =>
      refine ⟨?_, ⟨physical, hphys, hsmall⟩, fun i hi => ?_⟩
      · unfold reached
        rw [add_mul, one_mul]
        omega
      · split
        next heq =>
          obtain ⟨hle, hlt, -⟩ := block_bounds heq
          rw [putByte, if_neg (by omega)]
        · rfl
  next place chunk hsome =>
    split at hsome
    next hless =>
      rw [Option.some.injEq, Prod.mk.injEq] at hsome
      obtain ⟨rfl, rfl⟩ := hsome
      have hedge : min (min (k * blockSize + blockSize) (off + data.length))
          (off + data.length) = min (k * blockSize + blockSize) (off + data.length) := by omega
      rw [hedge] at hless ⊢
      have hreached : reached off (off + data.length) k = max off (k * blockSize) := by
        unfold reached
        omega
      rw [hreached]
      refine Program.Ends.bind (ends_writeInodeBlock hwithin k _ d₁) (fun _ _ => nofun)
        fun value d₂ h => ?_
      obtain ⟨hbad, -⟩ | ⟨-, block', -, hblock', rfl⟩ := h
      · cases hbad
      cases hphys.symm.trans hblock'
      refine Program.ends_pure fun done hdone => ?_
      cases hdone
      refine ⟨?_, ⟨physical, hphys, hsmall⟩, fun i hi => ?_⟩
      · unfold reached
        rw [add_mul, one_mul]
        omega
      · rw [hwithin.byteAt_update hphys _ hi]
        split
        next heq =>
          rw [Block.byte_patch _ _ _ (mod_lt i (by decide)), overlay_window rfl rfl heq,
            hbyte i heq]
        · rfl
    · cases hsome

/-- The blocks of the file from `k` on have been written: nothing is left of the data,
and the blocks that it reaches have numbers that can be read. -/
structure WrittenFrom (inode : Inode) (offset : Nat) (data : List UInt8) (k : Nat) (d : Disk)
    (done : Nat) (d' : Disk) : Prop where
  all : done = data.length
  block : ∀ j, k ≤ j → j * blockSize < offset + data.length →
    ∃ block, inode.blocks[j]? = some block ∧ block < 2 ^ 31
  byte : ∀ i, i / blockSize < inode.blocks.length → inode.byteAt d' i =
    if k ≤ i / blockSize then putByte offset data i (inode.byteAt d i) else inode.byteAt d i

/-- Nothing is to be written behind the end of the request. -/
lemma writtenFrom_of_end_le (hpos : 0 < data.length)
    (hend : off + data.length ≤ k * blockSize) (d : Disk) :
    WrittenFrom inode off data k d (reached off (off + data.length) k - off) d where
  all := by
    unfold reached
    omega
  block j hj hlt := by
    have hmul := mul_le_mul_right blockSize hj
    omega
  byte i _ := by
    split
    next hi =>
      have hmul := mul_le_mul_right blockSize hi
      have hbounds := block_bounds (rfl : i / blockSize = i / blockSize)
      rw [putByte, if_neg (by omega)]
    · rfl

/-- The loop writes block after block. -/
lemma ends_writeRangeLoop_bytes (hwithin : L.Within inode) (hpos : 0 < data.length)
    (hsmall : off + data.length + blockSize ≤ wordLimit)
    (hcov : off + data.length ≤ inode.blocks.length * blockSize) {count : Nat}
    (hcount : k + count = inode.blocks.length) (d : Disk) :
    (writeRangeLoop inode off (off + data.length) data count k
      (reached off (off + data.length) k - off)).Ends serve d fun r d' =>
      ∀ done, r = some done → WrittenFrom inode off data k d done d' := by
  induction count generalizing k d with
  | zero =>
    refine Program.ends_pure fun done h => ?_
    cases h
    refine writtenFrom_of_end_le hpos ?_ d
    rw [show k = inode.blocks.length by omega]
    exact hcov
  | succ count ih =>
    unfold writeRangeLoop
    split
    next hmore =>
      have hk : (k + 1) * blockSize < wordLimit := by
        unfold reached at hmore
        rw [add_mul]
        omega
      refine Program.Ends.bind (ends_writeChunk_bytes hwithin hk d) (fun _ _ => by simp)
        fun done d₁ hchunk => ?_
      obtain ⟨rfl, hfirst, hbytes⟩ := hchunk done rfl
      refine (ih (by omega) d₁).mono fun r d₂ hrest done hr => ?_
      have hwrote := hrest done hr
      refine ⟨hwrote.all, fun j hj hlt => ?_, fun i hi => ?_⟩
      · obtain rfl | hlater := eq_or_lt_of_le hj
        · exact hfirst
        · exact hwrote.block j hlater hlt
      · -- the block of the position is written now, later, or has been before
        rw [hwrote.byte i hi, hbytes i hi]
        obtain hlt | heq | hgt := lt_trichotomy (i / blockSize) k
        · rw [if_neg (by omega), if_neg (by omega), if_neg (by omega)]
        · rw [if_neg (by omega), if_pos heq, if_pos (by omega)]
        · rw [if_pos (by omega), if_neg (by omega), if_pos (by omega)]
    next hdone =>
      refine Program.ends_pure fun done h => ?_
      cases h
      refine writtenFrom_of_end_le hpos ?_ d
      unfold reached at hdone
      omega

/-! ## A whole write -/

/-- Growing leaves the blocks of the file in front if its extents are packed, or if it
does not grow. -/
lemma ends_ensureBlocks_front (hholds : L.Holds d inode) {need : Nat}
    (hpacked : inode.blocks.length < need → inode.Packed) :
    (ensureBlocks L.toSuper inode need).Ends serve d fun r _ =>
      ∀ inode', r = some inode' → inode.blocks <+: inode'.blocks := by
  by_cases hgrows : inode.blocks.length < need
  · exact (ends_ensureBlocks_packed hholds (hpacked hgrows) need).mono
      fun _ _ h inode' hr => (h inode' hr).2
  have hsame : ensureBlocks L.toSuper inode need = pure inode := by
    unfold ensureBlocks
    rw [hholds.bounded.blockCount]
    cases need with
    | zero => rfl
    | succ need => rw [ensureLoop, if_neg hgrows]
  rw [hsame]
  refine Program.ends_pure fun inode' hr => ?_
  cases hr
  exact prefix_rfl

/-- The bytes of a file that has grown: the old ones, and zeros behind them. -/
lemma byteAt_of_gain {gained lost : List Nat} (hholds : L.Holds d inode)
    (hblocks : inode'.blocks.Perm (inode.blocks ++ gained))
    (hfront : inode.blocks <+: inode'.blocks) (htakes : L.Takes d d' (gained ++ lost))
    (hzero : Zeroed d' gained) (hi : i / blockSize < inode'.blocks.length) :
    inode'.byteAt d' i = if i / blockSize < inode.blocks.length then inode.byteAt d i else 0 := by
  obtain ⟨rest, hrest⟩ := hfront
  rw [← hrest, perm_append_left_iff] at hblocks
  unfold Inode.byteAt
  rw [← hrest] at hi ⊢
  split
  next hold =>
    have hget : ∀ blocks : List Nat, (inode.blocks ++ blocks).getD (i / blockSize) 0 =
        inode.blocks[i / blockSize] := by
      intro blocks
      rw [getD_eq_getElem?_getD, getElem?_append_left hold, getElem?_eq_getElem hold, getD_some]
    obtain ⟨hdata, hset⟩ := hholds.inside _ (getElem_mem hold)
    have hfree : inode.blocks[i / blockSize] ∉ gained ++ lost := by
      intro hmem
      have hclear := (htakes.free _ hmem).2
      rw [hset] at hclear
      cases hclear
    rw [hget, htakes.data _ hdata hfree, ← hget [], append_nil]
  next hnew =>
    rw [length_append] at hi
    have hin : i / blockSize - inode.blocks.length < rest.length := by omega
    rw [getD_eq_getElem?_getD, getElem?_append_right (Nat.le_of_not_lt hnew),
      getElem?_eq_getElem hin, getD_some,
      hzero _ (hblocks.mem_iff.mp (getElem_mem hin))]
    rfl

/-- What a successful write of some bytes has done. -/
lemma writeFileRange_eq_some (hindex : index < maxInodes) (hdata : data ≠ [])
    (hend : off + data.length < wordLimit)
    (hexec : (writeFileRange L.toSuper index inode off data).exec Disk.serve d =
      (some (inode', some written), d')) :
    inode.type = typeFile ∧ ∃ grown d₁ d₂,
      (ensureBlocks L.toSuper inode (writeBlocks off data)).exec Disk.serve d = (some grown, d₁) ∧
      (writeRangeLoop grown off (off + data.length) data grown.blockCount 0 0).exec Disk.serve d₁ =
        (some written, d₂) ∧
      inode' = grown.withSizeAtLeast (off + data.length) ∧ L.Puts d₂ d' index inode' := by
  unfold writeBlocks
  unfold writeFileRange at hexec
  by_cases htype : inode.type = typeFile
  · rw [if_neg (not_not.mpr htype), if_neg (by rwa [List.isEmpty_iff])] at hexec
    rw [mod_eq_of_lt hend] at hexec ⊢
    rw [if_neg (by omega), Program.exec_bind_of_some _ (Program.exec_attempt _ _ _)] at hexec
    refine ⟨htype, ?_⟩
    generalize hens : (ensureBlocks L.toSuper inode
      ((off + data.length + blockSize - 1) % wordLimit / blockSize)).exec serve d = result
      at hexec ⊢
    obtain ⟨_ | grown, d₁⟩ := result
    · cases hexec
    rw [Program.exec_bind_of_some _ (Program.exec_attempt _ _ _)] at hexec
    generalize hloop : (writeRangeLoop grown off (off + data.length) data grown.blockCount 0
      0).exec serve d₁ = result at hexec
    obtain ⟨_ | done, d₂⟩ := result
    · cases hexec
    obtain ⟨d₃, hwrite, hputs⟩ := exec_writeInode L hindex
      (grown.withSizeAtLeast (off + data.length)) d₂
    rw [Program.exec_bind_of_some _ (Program.exec_attempt _ _ _), hwrite] at hexec
    cases hexec
    exact ⟨grown, d₁, d₂, rfl, hloop, rfl, hputs⟩
  · rw [if_pos htype] at hexec
    cases hexec

/-- A write of no bytes does nothing. -/
lemma writeFileRange_nil
    (hexec : (writeFileRange L.toSuper index inode off []).exec serve d =
      (some (inode', some written), d')) :
    inode.type = typeFile ∧ inode = inode' ∧ 0 = written ∧ d = d' := by
  unfold writeFileRange at hexec
  by_cases htype : inode.type = typeFile
  · rw [if_neg (not_not.mpr htype)] at hexec
    cases hexec
    exact ⟨htype, rfl, rfl, rfl⟩
  · rw [if_pos htype] at hexec
    cases hexec

/-- A file that has been written is a file. -/
lemma type_of_exec (howned : L.Owned d) (hfound : L.Found d index inode)
    (hdata : data ≠ []) (hend : off + data.length < wordLimit)
    (hexec : (writeFileRange L.toSuper index inode off data).exec serve d =
      (some (inode', some written), d')) : inode'.type = typeFile := by
  obtain ⟨htype, grown, d₁, d₂, hens, -, rfl, -⟩ :=
    writeFileRange_eq_some hfound.lt hdata hend hexec
  have hgrown := ends_ensureBlocks (howned.holds hfound.stores) (writeBlocks off data)
  unfold Program.Ends at hgrown
  rw [hens] at hgrown
  cases hgrown with
  | done hhdr hblocks hlen htakes hzero hexact =>
    rw [hhdr]
    exact htype

/-- A successful write of some bytes that does not end in the last block below
`2 ^ 32`. -/
structure Rewrites (layout : Layout) (inode : Inode) (d : Disk) (offset : Nat) (data : List UInt8)
    (inode' : Inode) (written : Nat) (d' : Disk) : Prop where
  type : inode'.type = typeFile
  all : written = data.length
  size : inode'.size = max inode.size (offset + data.length)
  within : layout.Within inode'
  front : inode.blocks <+: inode'.blocks
  reaches : offset + data.length ≤ inode'.blocks.length * blockSize
  block : ∀ k, k * blockSize < offset + data.length →
    ∃ block, inode'.blocks[k]? = some block ∧ block < 2 ^ 31
  byte : ∀ i, i / blockSize < inode'.blocks.length → inode'.byteAt d' i =
    putByte offset data i (if i / blockSize < inode.blocks.length then inode.byteAt d i else 0)

lemma rewrites_of_exec (howned : L.Owned d) (hfound : L.Found d index inode)
    (hpacked : inode.blocks.length < writeBlocks off data → inode.Packed) (hdata : data ≠ [])
    (hsmall : off + data.length + blockSize ≤ wordLimit)
    (hexec : (writeFileRange L.toSuper index inode off data).exec serve d =
      (some (inode', some written), d')) :
    L.Rewrites inode d off data inode' written d' := by
  have hpos : 0 < blockSize := by decide
  have hend : off + data.length < wordLimit := by omega
  have hholds := howned.holds hfound.stores
  obtain ⟨htype, grown, d₁, d₂, hens, hloop, rfl, hputs⟩ :=
    writeFileRange_eq_some hfound.lt hdata hend hexec
  have hgrown := ends_ensureBlocks hholds (writeBlocks off data)
  have hfront := ends_ensureBlocks_front hholds hpacked
  unfold Program.Ends at hgrown hfront
  rw [hens] at hgrown hfront
  have hfront := hfront grown rfl
  cases hgrown with
  | @done gained lost _ _ hhdr hblocks hlen htakes hzero hexact =>
    have hwithin := (hholds.gain htakes hblocks).within
    have hneed : off + data.length ≤ grown.blocks.length * blockSize := by
      have hmod := lt_div_mul_add (a := off + data.length + blockSize - 1) hpos
      have hle := mul_le_mul_right blockSize (hlen ▸ le_max_right _ _)
      unfold writeBlocks at hle
      rw [mod_eq_of_lt hend, mod_eq_of_lt (by omega)] at hle
      omega
    have hwrote := ends_writeRangeLoop_bytes hwithin (length_pos_iff.mpr hdata) hsmall hneed
      (zero_add _) d₁
    have hstart : reached off (off + data.length) 0 - off = 0 := by
      unfold reached
      omega
    unfold Program.Ends at hwrote
    rw [hwithin.bounded.blockCount] at hloop
    rw [hstart, hloop] at hwrote
    have hwrote := hwrote written rfl
    refine ⟨?_, hwrote.all, ?_, ⟨hwithin.nodup, hwithin.inside⟩, hfront, hneed, ?_, ?_⟩
    · rw [hhdr]
      exact htype
    · rw [hhdr]
      rfl
    · exact fun k hk => hwrote.block k (zero_le k) hk
    · intro i hi
      have hsame := byteAt_congr (fun block hblock =>
        hputs.data block (hwithin.inside block hblock).1
          (InData.small (hwithin.inside block hblock))) hi
      have hbyte := hwrote.byte i hi
      rw [byteAt_of_gain hholds hblocks hfront htakes hzero hi] at hbyte
      exact hsame.trans hbyte

/-! ## Reading back -/

/-- A byte of the file after the write. -/
def writtenByte (inode : Inode) (d : Disk) (offset : Nat) (data : List UInt8) (i : Nat) : UInt8 :=
  putByte offset data i (if i < inode.size then inode.byteAt d i else 0)

/-- Everything was written, and every read of the file returns what it should hold. -/
structure WriteReads (inode : Inode) (d : Disk) (offset : Nat) (data : List UInt8)
    (inode' : Inode) (written : Nat) (d' : Disk) : Prop where
  all : written = data.length
  covered : inode'.size ≤ inode'.blocks.length * blockSize
  size : inode'.size = max inode.size (offset + data.length)
  reads : ∀ start ≤ inode'.size, ∀ count < wordLimit,
    (readFileRange inode' start count).exec serve d' =
      (some ((List.range' start (min count (inode'.size - start))).map
        (writtenByte inode d offset data)), d')

/-- The file does not get to the last block below `2 ^ 32`, its blocks can be read, and
the blocks that it has hold zeros between its end and the first byte that is written.
Without a byte to write, the write starts in the file. -/
structure WriteFits (inode : Inode) (d : Disk) (offset : Nat) (data : List UInt8) : Prop where
  starts : data = [] → offset ≤ inode.size
  small : max inode.size (offset + data.length) + blockSize ≤ wordLimit
  block : ∀ k block, k * blockSize < inode.size → inode.blocks[k]? = some block → block < 2 ^ 31
  gap : ∀ i, inode.size ≤ i → i < offset → i < inode.blocks.length * blockSize →
    inode.byteAt d i = 0

/-- All reads of a file return what is expected if and only if it is readable and has
the expected bytes. -/
lemma reads_iff (hwithin : L.Within inode) (htype : inode.type = typeFile)
    (hsize : inode.size < wordLimit) (hcov : inode.size ≤ inode.blocks.length * blockSize)
    (expected : Nat → UInt8) :
    (∀ start ≤ inode.size, ∀ count < wordLimit, (readFileRange inode start count).exec serve d =
      (some ((List.range' start (min count (inode.size - start))).map expected), d)) ↔
      inode.Readable ∧ ∀ i < inode.size, inode.byteAt d i = expected i := by
  constructor
  · intro hreads
    have hread : inode.Readable := by
      refine readable_of_reads hwithin.bounded htype hsize hcov fun start hstart count hcount =>
        ⟨_, hreads start hstart count hcount, ?_⟩
      rw [length_map, length_range']
    refine ⟨hread, fun i hi => ?_⟩
    have hone := hreads i hi.le 1 (by decide)
    rw [exec_readFileRange hwithin.bounded hread htype d hi.le,
      min_eq_left (show 1 ≤ inode.size - i by omega)] at hone
    exact (List.cons.inj (Option.some.inj (Prod.mk.inj hone).1)).1
  · rintro ⟨hread, hbytes⟩ start hstart count -
    rw [exec_readFileRange hwithin.bounded hread htype d hstart]
    have hmap : inode.bytes d start (min count (inode.size - start)) =
        (List.range' start (min count (inode.size - start))).map expected := by
      refine map_congr_left fun i hi => hbytes i ?_
      rw [mem_range'_1] at hi
      omega
    rw [hmap]

/-- The blocks of the file cover its new size. -/
lemma Rewrites.covered (hrew : L.Rewrites inode d off data inode' written d')
    (hcov : inode.size ≤ inode.blocks.length * blockSize) :
    inode'.size ≤ inode'.blocks.length * blockSize := by
  rw [hrew.size]
  exact Nat.max_le.mpr ⟨hcov.trans (Nat.mul_le_mul_right _ hrew.front.length_le), hrew.reaches⟩

/-- The file after a write of some bytes is as expected if the write fits. -/
lemma Rewrites.readable_iff (hrew : L.Rewrites inode d off data inode' written d')
    (hdata : data ≠ []) (hcov : inode.size ≤ inode.blocks.length * blockSize) :
    (inode'.Readable ∧ ∀ i < inode'.size, inode'.byteAt d' i = writtenByte inode d off data i) ↔
      WriteFits inode d off data := by
  have hpos : 0 < blockSize := by decide
  have hsize := hrew.size
  obtain ⟨rest, hrest⟩ := hrew.front
  have hins : ∀ i, i < inode'.size → i / blockSize < inode'.blocks.length := fun i hi =>
    (Nat.div_lt_iff_lt_mul hpos).mpr (hi.trans_le (hrew.covered hcov))
  constructor
  · rintro ⟨hread, hbytes⟩
    refine ⟨fun hnil => absurd hnil hdata, hsize ▸ hread.small, ?_, ?_⟩
    · intro k block hk hblock
      obtain ⟨block', hblock', hsmall⟩ := hread.block k (by omega)
      rw [← hrest, List.getElem?_append_left (List.getElem?_eq_some_iff.mp hblock).1, hblock]
        at hblock'
      rwa [Option.some.inj hblock']
    · intro i hle hlt hold
      have hi : i < inode'.size := by omega
      have hbyte := hbytes i hi
      have hout : ¬(off ≤ i ∧ i < off + data.length) := by omega
      rwa [hrew.byte i (hins i hi), writtenByte, putByte, putByte, if_neg hout, if_neg hout,
        if_pos ((Nat.div_lt_iff_lt_mul hpos).mpr hold), if_neg (Nat.not_lt_of_le hle)] at hbyte
  · intro hfits
    refine ⟨⟨hsize ▸ hfits.small, fun k hk => ?_⟩, fun i hi => ?_⟩
    · by_cases hnew : k * blockSize < off + data.length
      · exact hrew.block k hnew
      have hk : k * blockSize < inode.size := by omega
      have hold : k < inode.blocks.length := Nat.lt_of_mul_lt_mul_right (hk.trans_le hcov)
      refine ⟨inode.blocks[k], ?_, hfits.block k _ hk (getElem?_eq_getElem hold)⟩
      rw [← hrest, getElem?_append_left hold, getElem?_eq_getElem hold]
    · rw [hrew.byte i (hins i hi), writtenByte, putByte, putByte]
      split
      · rfl
      next hout =>
        -- outside of the data, the old file counts up to its old end
        by_cases hold : i < inode.size
        · rw [if_pos hold, if_pos ((Nat.div_lt_iff_lt_mul hpos).mpr (hold.trans_le hcov))]
        split
        next hblock =>
          rw [Nat.div_lt_iff_lt_mul hpos] at hblock
          exact hfits.gap i (Nat.le_of_not_lt hold) (by omega) hblock
        · rfl

/-- After a successful write to a file of a sound volume, the number of bytes written,
the size and every read are as they should be if and only if the write fits. A file that
grows has its extents without gaps. -/
theorem writeFileRange_reads_iff (layout : Layout) (d d' : Disk) (index : Nat)
    (inode inode' : Inode)
    (offset : Nat) (data : List UInt8) (written : Nat) (howned : layout.Owned d)
    (hfound : layout.Found d index inode) (hcovered : inode.size ≤ inode.blocks.length * blockSize)
    (hpacked : inode.blocks.length < writeBlocks offset data → inode.Packed)
    (hend : offset + data.length < wordLimit)
    (hexec : (writeFileRange layout.toSuper index inode offset data).exec serve d =
      (some (inode', some written), d')) :
    WriteReads inode d offset data inode' written d' ↔ WriteFits inode d offset data := by
  have hsize : inode.size < wordLimit := by
    rw [hfound.stored]
    exact Inode.size_decode_lt _
  by_cases hdata : data = []
  · subst hdata
    have hwithin := (howned.holds hfound.stores).within
    obtain ⟨htype, rfl, rfl, rfl⟩ := writeFileRange_nil hexec
    constructor
    · intro hreads
      have hsame := hreads.size
      obtain ⟨hread, -⟩ := (reads_iff hwithin htype hsize hcovered _).mp hreads.reads
      rw [length_nil, Nat.add_zero] at hsame
      refine ⟨fun _ => by omega, ?_, fun k block hk hblock => ?_, fun i hle hlt => by omega⟩
      · rw [length_nil, Nat.add_zero, ← hsame]
        exact hread.small
      · obtain ⟨block', hblock', hsmall⟩ := hread.block k hk
        rwa [Option.some.inj (hblock.symm.trans hblock')]
    · intro hfits
      have hstarts := hfits.starts rfl
      have hsmall := hfits.small
      rw [length_nil, Nat.add_zero, Nat.max_eq_left hstarts] at hsmall
      refine ⟨rfl, hcovered, (Nat.max_eq_left hstarts).symm, ?_⟩
      refine (reads_iff hwithin htype hsize hcovered _).mpr
        ⟨⟨hsmall, fun k hk => ?_⟩, fun i hi => ?_⟩
      · have hlt : k < inode.blocks.length := Nat.lt_of_mul_lt_mul_right (hk.trans_le hcovered)
        exact ⟨_, getElem?_eq_getElem hlt, hfits.block k _ hk (getElem?_eq_getElem hlt)⟩
      · rw [writtenByte, putByte, if_neg (by rw [length_nil]; omega), if_pos hi]
  · by_cases hsmall : offset + data.length + blockSize ≤ wordLimit
    · have hrew := rewrites_of_exec howned hfound hpacked hdata hsmall hexec
      have hsize' : inode'.size < wordLimit := by
        rw [hrew.size]
        omega
      have hcov' := hrew.covered hcovered
      rw [← hrew.readable_iff hdata hcovered, ← reads_iff hrew.within hrew.type hsize' hcov' _]
      exact ⟨WriteReads.reads, fun hreads => ⟨hrew.all, hcov', hrew.size, hreads⟩⟩
    · -- the last byte of the file is never read
      refine iff_of_false (fun hreads => ?_) fun hfits => ?_
      · have htype := type_of_exec howned hfound hdata hend hexec
        have hlen := length_pos_iff.mpr hdata
        have hsame := hreads.size
        have hlast := hreads.reads (inode'.size - 1) (sub_le _ _) 1 (by decide)
        rw [exec_readFileRange_wrapped htype (by omega) (by omega),
          min_eq_left (show 1 ≤ inode'.size - (inode'.size - 1) by omega)] at hlast
        cases hlast
      · have hsmall' := hfits.small
        omega

/-- Three bytes behind the end of a file of one block. -/
theorem writeFileRange_reads_small :
    let d := (Volume.mounted Volume.fileDevice 0).contents
    let inode := smallLayout.inodeAt d 1
    let result := (writeFileRange smallLayout.toSuper 1 inode 600 [1, 2, 3]).exec serve d
    ∃ inode', result.1 = some (inode', some 3) ∧
      WriteReads inode d 600 [1, 2, 3] inode' 3 result.2 := by
  intro d inode result
  have howned : smallLayout.Owned d := Volume.sound_fileDevice.1
  have hfound : smallLayout.Found d 1 inode := ⟨by decide, rfl, by decide +kernel⟩
  have hpacked : inode.Packed := by decide +kernel
  have hsize : inode.size = 512 := by decide +kernel
  have hblocks : inode.blocks = [229] := by decide +kernel
  have hsome : result.1 = some (plainInode typeFile 603 229 2, some 3) := by decide +kernel
  have hexec : (writeFileRange smallLayout.toSuper 1 inode 600 [1, 2, 3]).exec serve d =
      (some (plainInode typeFile 603 229 2, some 3), result.2) := by
    rw [← hsome]
  clear_value result inode d
  refine ⟨_, hsome, ?_⟩
  refine (writeFileRange_reads_iff smallLayout d result.2 1 inode _ 600 [1, 2, 3] 3 howned hfound
    (by rw [hsize, hblocks]; decide) (fun _ => hpacked) (by decide) hexec).mpr
    ⟨nofun, by rw [hsize]; decide, ?_, ?_⟩
  · intro k block _ hblock
    rw [hblocks] at hblock
    rw [mem_singleton.mp (mem_of_getElem? hblock)]
    decide
  · intro i hle _ hlt
    rw [hsize] at hle
    rw [hblocks] at hlt
    exact absurd hlt (Nat.not_lt_of_le hle)

/-- Five bytes ten bytes before the end of all positions. The write succeeds without
writing anything and without taking a block, and the size is four gigabytes. -/
theorem writeFileRange_not_reads :
    let d := (Volume.mounted Volume.fileDevice 0).contents
    let inode := smallLayout.inodeAt d 1
    let result := (writeFileRange smallLayout.toSuper 1 inode 4294967286 [1, 2, 3, 4, 5]).exec
      serve d
    smallLayout.Owned d ∧ smallLayout.Found d 1 inode ∧ inode.Packed ∧
      inode.size = inode.blocks.length * blockSize ∧
      ∃ inode', result.1 = some (inode', some 0) ∧ inode'.size = 4294967291 ∧
        inode'.blocks.length = 1 ∧
        ((readFileRange inode' 4294967286 5).exec serve result.2).1 = some [] ∧
        ¬WriteReads inode d 4294967286 [1, 2, 3, 4, 5] inode' 0 result.2 := by
  intro d inode result
  have hsome : result.1 = some (plainInode typeFile 4294967291 229 1, some 0) := by decide +kernel
  refine ⟨Volume.sound_fileDevice.1, ⟨by decide, rfl, by decide +kernel⟩, by decide +kernel,
    by decide +kernel, _, hsome, by decide +kernel, by decide +kernel, by decide +kernel,
    fun hreads => ?_⟩
  exact absurd hreads.all (by decide)

end Layout

end NexOS.Nxfs
