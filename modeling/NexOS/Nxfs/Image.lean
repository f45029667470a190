import NexOS.Nxfs.Format

/-! # Reading an image back

What a byte range, a bitmap block, an inode and a directory entry hold after
they were written.
-/

namespace NexOS.Nxfs

open LittleEndian Nat Option List

/-! ## Byte ranges -/

variable {off other : Nat}

namespace Disk

/-- The byte that a source writes at a position, if it reaches there. -/
def overlay (offset : Nat) (src : List UInt8) (position : Nat) : Option UInt8 :=
  if offset ≤ position then src[position - offset]? else none

lemma overlay_nil (off position : Nat) : overlay off [] position = none := by
  simp [overlay]

variable {src : List UInt8}

lemma overlay_eq_none {position : Nat} (hout : position < off ∨ off + src.length ≤ position) :
    overlay off src position = none := by
  unfold overlay
  split
  · apply getElem?_eq_none
    omega
  · rfl

/-- A source written in two parts. -/
lemma overlay_take_drop (off cut : Nat) (src : List UInt8) (position : Nat)
    (old : UInt8) (hcut : cut ≤ src.length) :
    (overlay (off + cut) (src.drop cut) position).getD
        ((overlay off (src.take cut) position).getD old) =
      (overlay off src position).getD old := by
  by_cases hsnd : off + cut ≤ position
  · have hfirst : overlay off (src.take cut) position = none := by
      apply overlay_eq_none
      rw [length_take]
      omega
    have hindex : cut + (position - (off + cut)) = position - off := by omega
    rw [hfirst, overlay, overlay, if_pos hsnd, if_pos (by omega), getElem?_drop, hindex]
    rfl
  · rw [overlay_eq_none (.inl (Nat.lt_of_not_le hsnd)), getD_none, overlay, overlay]
    split
    · rw [getElem?_take_of_lt (by omega)]
    · rfl

lemma getElem?_patchBlocks (blocks : List Block) (src : List UInt8)
    (hoff : off ≤ blockSize) (k : Nat) :
    (patchBlocks blocks off src)[k]? = (blocks[k]?).map fun (block : Block) (i : Fin blockSize) =>
        (overlay off src (k * blockSize + i)).getD (block i) := by
  induction blocks generalizing off src k with
  | nil => simp [patchBlocks]
  | cons block rest ih =>
    unfold patchBlocks
    split
    next hempty =>
      rw [List.isEmpty_iff] at hempty
      subst hempty
      simp [overlay_nil]
    · cases k with
      | zero =>
        simp only [getElem?_cons_zero, map_some, Option.some.injEq]
        funext i
        simp only [Block.patch, overlay, zero_mul, zero_add]
        split
        · rw [getElem?_take_of_lt (by have := i.isLt; omega)]
        · rfl
      | succ k =>
        rw [getElem?_cons_succ, ih _ (zero_le _)]
        congr 1
        funext block i
        have hindex : blockSize - off + (k * blockSize + i.val - 0) =
            (k + 1) * blockSize + i.val - off := by
          rw [succ_mul]
          omega
        have hle : off ≤ (k + 1) * blockSize + i.val := by
          rw [succ_mul]
          omega
        rw [overlay, overlay, if_pos (zero_le _), if_pos hle, getElem?_drop, hindex]

lemma writeBatch_apply (d : Disk) (start : UInt32) (src : List UInt8)
    (hoff : off ≤ blockSize) (hspan : blockSpan off src.length ≤ wordLimit)
    (block : UInt32) (i : Fin blockSize) :
    d.writeBatch start off src block i =
      (overlay off src ((block - start).toNat * blockSize + i)).getD (d block i) := by
  unfold writeBatch
  rw [writeBlocks_apply _ _ _ (by rw [length_patchBlocks, length_readBlocks]; exact hspan),
    getElem?_patchBlocks _ _ hoff]
  by_cases hin : (block - start).toNat < blockSpan off src.length
  · have hback : start + UInt32.ofNat (block - start).toNat = block := by
      rw [UInt32.ofNat_toNat, UInt32.add_comm, UInt32.sub_add_cancel]
    rw [getElem?_readBlocks _ _ _ _ hin, hback]
    rfl
  · rw [getElem?_eq_none (by rw [length_readBlocks]; exact Nat.le_of_not_lt hin)]
    have hout : off + src.length ≤ (block - start).toNat * blockSize + i := by
      unfold blockSpan blockSize at hin
      unfold blockSize
      omega
    rw [overlay_eq_none (.inr hout)]
    rfl

/-- The position of a block's byte, seen from the first byte of a range. -/
lemma overlay_from_start (hend : off + src.length ≤ wordLimit) (block : UInt32) {i : Nat}
    (hi : i < blockSize) :
    overlay (off % blockSize) src
        ((block - UInt32.ofNat (off / blockSize)).toNat * blockSize + i) =
      overlay off src (block.toNat * blockSize + i) := by
  have hblock : block.toNat < 4294967296 := block.toNat_lt
  have hlimit : wordLimit = 4294967296 := rfl
  have hstart : (UInt32.ofNat (off / 512)).toNat = off / 512 :=
    UInt32.toNat_ofNat_of_lt' (by show _ < 4294967296; omega)
  unfold blockSize at hi ⊢
  rw [UInt32.toNat_sub, hstart]
  by_cases hle : off / 512 ≤ block.toNat
  · have hshift : (4294967296 - off / 512 + block.toNat) % 4294967296 =
        block.toNat - off / 512 := by omega
    rw [hshift]
    unfold overlay
    have hiff : off % 512 ≤ (block.toNat - off / 512) * 512 + i ↔
        off ≤ block.toNat * 512 + i := by omega
    have hindex : (block.toNat - off / 512) * 512 + i - off % 512 =
        block.toNat * 512 + i - off := by omega
    simp only [hiff, hindex]
  · rw [overlay_eq_none (.inr (by omega)), overlay_eq_none (.inl (by omega))]

lemma writeBytesLoop_apply (d : Disk) {fuel : Nat} (hfuel : src.length ≤ fuel)
    (hend : off + src.length ≤ wordLimit) (block : UInt32) (i : Fin blockSize) :
    writeBytesLoop fuel d off src block i =
      (overlay off src (block.toNat * blockSize + i)).getD (d block i) := by
  induction fuel generalizing d off src with
  | zero =>
    have hnil : src = [] := length_eq_zero_iff.mp (le_zero.mp hfuel)
    rw [hnil, overlay_nil]
    rfl
  | succ fuel ih =>
    unfold writeBytesLoop
    split
    next hempty => rw [List.isEmpty_iff.mp hempty, overlay_nil]; rfl
    next hne =>
      have hlen : src.length ≠ 0 := fun hzero =>
        hne (by rw [length_eq_zero_iff.mp hzero]; rfl)
      have habsolute : off % wordLimit = off := mod_eq_of_lt (by omega)
      have hoff : off % blockSize < blockSize := mod_lt _ (by decide)
      simp only [habsolute]
      generalize hcut : min src.length (blockSize * 8 - off % blockSize) = cut
      have hle : cut ≤ src.length := by omega
      have htake : (src.take cut).length = cut := by rw [length_take]; omega
      rw [ih _ (by rw [length_drop]; omega) (by rw [length_drop]; omega),
        writeBatch_apply _ _ _ hoff.le (by
          unfold blockSpan
          unfold blockSize at hcut ⊢
          omega),
        overlay_from_start (by omega) _ i.isLt,
        overlay_take_drop _ _ _ _ _ hle]

lemma writeBytes_apply (d : Disk) (hend : off + src.length ≤ wordLimit) (block : UInt32)
    (i : Fin blockSize) :
    d.writeBytes off src block i =
      (overlay off src (block.toNat * blockSize + i)).getD (d block i) :=
  writeBytesLoop_apply d le_rfl hend block i

lemma byteAt_writeBytes (d : Disk) (hend : off + src.length ≤ wordLimit) {addr : Nat}
    (haddr : addr < wordLimit) :
    (d.writeBytes off src).byteAt addr = (overlay off src addr).getD (d.byteAt addr) := by
  have hblock : (UInt32.ofNat (addr / blockSize)).toNat = addr / blockSize :=
    UInt32.toNat_ofNat_of_lt' (lt_of_le_of_lt (div_le_self _ _) haddr)
  have hpos : addr / blockSize * blockSize + addr % blockSize % blockSize = addr := by
    rw [mod_mod, div_add_mod']
  unfold byteAt Block.byte
  rw [mod_eq_of_lt haddr, writeBytes_apply d hend, hblock, Fin.val_ofNat, hpos]

/-- A written range reads back. -/
lemma readBytes_writeBytes (d : Disk) (hend : off + src.length ≤ wordLimit) :
    (d.writeBytes off src).readBytes off src.length = src := by
  apply ext_getElem?
  intro k
  unfold readBytes
  by_cases hk : k < src.length
  · rw [getElem?_map, getElem?_range hk, Option.map_some,
      byteAt_writeBytes d hend (by omega), overlay, if_pos (Nat.le_add_right _ _),
      Nat.add_sub_cancel_left, getElem?_eq_getElem hk]
    rfl
  · rw [getElem?_eq_none (by simpa using hk), getElem?_eq_none (by simpa using hk)]

/-- A range apart from a written one reads as before. -/
lemma readBytes_writeBytes_of_apart (d : Disk) (hend : off + src.length ≤ wordLimit)
    {size : Nat} (hother : other + size ≤ wordLimit)
    (hapart : other + size ≤ off ∨ off + src.length ≤ other) :
    (d.writeBytes off src).readBytes other size = d.readBytes other size := by
  apply map_congr_left
  intro k hk
  rw [mem_range] at hk
  rw [byteAt_writeBytes d hend (by omega), overlay_eq_none (by omega)]
  rfl

/-- A block outside a written range keeps its bytes. -/
lemma writeBytes_of_outside (d : Disk) (hend : off + src.length ≤ wordLimit) {block : UInt32}
    (hout : (block.toNat + 1) * blockSize ≤ off ∨
      off + src.length ≤ block.toNat * blockSize) : d.writeBytes off src block = d block := by
  funext i
  rw [writeBytes_apply d hend, overlay_eq_none]
  · rfl
  · rw [succ_mul] at hout
    omega

/-- A range reads the same from disks that agree on the blocks it touches. -/
lemma readBytes_congr {d d' : Disk} {size : Nat} (hend : off + size ≤ wordLimit)
    (hsame : ∀ block, off / blockSize ≤ block → block * blockSize < off + size →
      d' (UInt32.ofNat block) = d (UInt32.ofNat block)) :
    d'.readBytes off size = d.readBytes off size := by
  apply map_congr_left
  intro k hk
  rw [mem_range] at hk
  unfold byteAt
  rw [mod_eq_of_lt (show off + k < wordLimit by omega), hsame]
  · exact Nat.div_le_div_right (le_add_right _ _)
  · exact lt_of_le_of_lt (div_mul_le_self _ _) (by omega)

end Disk

/-! ## Bitmap blocks -/

namespace Block

variable {index : Nat}

lemma byte_patch_singleton (block : Block) (value : UInt8) (hindex : index < blockSize)
    (hother : other < blockSize) :
    (block.patch index [value]).byte other = if other = index then value else block.byte other := by
  have hval : (Fin.ofNat blockSize other).val = other := mod_eq_of_lt hother
  unfold byte patch
  rw [hval]
  by_cases heq : other = index
  · subst heq
    simp
  split
  next hle =>
    rw [getElem?_eq_none]
    · rfl
    · simp only [length_singleton]
      omega
  · rfl

lemma testBit_mask (byte : UInt8) {k j : Nat} (hk : k < 8) (hj : j < 8) (used : Bool) :
    (if used then byte ||| 1 <<< UInt8.ofNat k
      else byte &&& ~~~(1 <<< UInt8.ofNat k)).toNat.testBit j =
      if j = k then used else byte.toNat.testBit j := by
  have hmask : ∀ k < 8, ∀ j < 8, ((1 : UInt8) <<< UInt8.ofNat k).toNat.testBit j = decide (j = k) ∧
        (~~~((1 : UInt8) <<< UInt8.ofNat k)).toNat.testBit j = !decide (j = k) := by decide
  obtain ⟨hset, hclear⟩ := hmask k hk j hj
  cases used with
  | true =>
    rw [if_pos rfl, UInt8.toNat_or, testBit_or, hset]
    by_cases heq : j = k <;> simp [heq]
  | false =>
    rw [if_neg (by simp), UInt8.toNat_and, testBit_and, hclear]
    by_cases heq : j = k <;> simp [heq]

lemma bitGet_bitSet (bitmap : Block) (hindex : index < bitsPerBlock)
    (hother : other < bitsPerBlock) (used : Bool) :
    (bitmap.bitSet index used).bitGet other =
      if other = index then used else bitmap.bitGet other := by
  have hbits : bitsPerBlock = blockSize * 8 := rfl
  unfold bitSet bitGet
  rw [byte_patch_singleton _ _ (by omega) (by omega)]
  by_cases hbyte : other / 8 = index / 8
  · rw [if_pos hbyte, testBit_mask _ (mod_lt _ (by decide)) (mod_lt _ (by decide)), hbyte]
    have hiff : other % 8 = index % 8 ↔ other = index := by omega
    simp only [hiff]
  · have hne : other ≠ index := fun heq => hbyte (by rw [heq])
    rw [if_neg hbyte, if_neg hne]

lemma bitGet_setBits (bitmap : Block) {first count : Nat} (hend : first + count ≤ bitsPerBlock)
    (used : Bool) (hother : other < bitsPerBlock) :
    (bitmap.setBits first count used).bitGet other =
      if first ≤ other ∧ other < first + count then used else bitmap.bitGet other := by
  unfold setBits
  induction count with
  | zero =>
    rw [if_neg (by omega)]
    rfl
  | succ count ih =>
    rw [range_succ, foldl_append, foldl_cons, foldl_nil,
      bitGet_bitSet _ (by omega) hother, ih (by omega)]
    split
    · rw [if_pos (by omega)]
    congr 1
    apply propext
    omega

/-! ## Directory entries -/

lemma byte_patch (block : Block) (off : Nat) (bytes : List UInt8) (hindex : index < blockSize) :
    (block.patch off bytes).byte index =
      (Disk.overlay off bytes index).getD (block.byte index) := by
  have hval : (Fin.ofNat blockSize index).val = index := mod_eq_of_lt hindex
  unfold byte patch Disk.overlay
  rw [hval]
  split
  · rfl
  · rfl

lemma slice_patch_of_apart (block : Block) {start length : Nat} {bytes : List UInt8}
    (hend : start + length ≤ blockSize)
    (hapart : start + length ≤ off ∨ off + bytes.length ≤ start) :
    (block.patch off bytes).slice start length = block.slice start length := by
  apply map_congr_left
  intro i hi
  rw [mem_range] at hi
  rw [byte_patch _ _ _ (by omega), Disk.overlay_eq_none (by omega)]
  rfl

lemma slice_patch (block : Block) {skip : Nat} {bytes part rest : List UInt8}
    (hend : off + skip + part.length ≤ blockSize) (hbytes : bytes.drop skip = part ++ rest) :
    (block.patch off bytes).slice (off + skip) part.length = part := by
  apply ext_getElem?
  intro i
  unfold slice
  by_cases hi : i < part.length
  · have hindex : off + skip + i - off = skip + i := by omega
    rw [getElem?_map, getElem?_range hi, map_some, byte_patch _ _ _ (by omega),
      Disk.overlay, if_pos (by omega), hindex, ← getElem?_drop, hbytes,
      getElem?_append_left hi, getElem?_eq_getElem hi]
    rfl
  · rw [getElem?_eq_none (by simpa using hi), getElem?_eq_none (by simpa using hi)]

lemma length_entry (inode : Nat) {name : List UInt8} (hname : name.length ≤ nameSize) :
    (encode 4 inode ++ name ++ List.replicate (nameSize - name.length) 0).length =
      dirEntrySize := by
  have hsizes : dirEntrySize = 4 + nameSize := rfl
  simp only [length_append, length_encode, length_replicate]
  omega

/-- The name of a written entry reads back, and the other entries keep theirs. -/
lemma entryName_setEntry (block : Block) {slot inode : Nat} {name : List UInt8}
    (hslot : slot < dirEntriesPerBlock) (hother : other < dirEntriesPerBlock)
    (hname : name.length < nameSize) (hzero : 0 ∉ name) :
    (block.setEntry slot inode name).entryName other =
      if other = slot then name else block.entryName other := by
  have hents : dirEntriesPerBlock = 16 := rfl
  have hentry : dirEntrySize = 32 := rfl
  have hnames : nameSize = 28 := rfl
  have hsize : blockSize = 512 := rfl
  have hlen := length_entry inode hname.le
  unfold entryName setEntry
  by_cases heq : other = slot
  · subst heq
    have hpart :
        (name ++ List.replicate (nameSize - name.length) (0 : UInt8)).length = nameSize := by
      simp only [length_append, length_replicate]
      omega
    have hdrop : (encode 4 inode ++ name ++
        List.replicate (nameSize - name.length) (0 : UInt8)).drop 4 =
        (name ++ List.replicate (nameSize - name.length) 0) ++ [] := by
      rw [append_assoc, drop_left' (length_encode 4 inode), append_nil]
    have hend : other * dirEntrySize + 4 +
        (name ++ List.replicate (nameSize - name.length) (0 : UInt8)).length ≤ blockSize := by
      rw [hentry]
      omega
    have hslice := slice_patch block hend hdrop
    rw [hpart] at hslice
    have hpad : List.replicate (nameSize - name.length) (0 : UInt8) =
        0 :: List.replicate (nameSize - name.length - 1) 0 := by
      rw [← replicate_succ]
      congr 1
      omega
    rw [if_pos rfl, hslice, hpad, takeWhile_append_of_pos, takeWhile_cons_of_neg]
    · exact append_nil name
    · simp
    · intro byte hbyte
      simp only [decide_not, Bool.not_eq_eq_eq_not, Bool.not_true, decide_eq_false_iff_not]
      exact fun hbad => hzero (hbad ▸ hbyte)
  · rw [if_neg heq, slice_patch_of_apart]
    · rw [hentry]
      omega
    · rw [hentry]
      omega

end Block

/-! ## Inodes -/

namespace Inode

/-- The inode with its fields cut to their widths. -/
def wrapped (inode : Inode) : Inode where
  used := inode.used % 2 ^ 32
  size := inode.size % 2 ^ 32
  type := inode.type % 2 ^ 8
  mode := inode.mode % 2 ^ 32
  uid := inode.uid % 2 ^ 32
  gid := inode.gid % 2 ^ 32
  nlink := inode.nlink % 2 ^ 32
  atime := inode.atime % 2 ^ 64
  mtime := inode.mtime % 2 ^ 64
  ctime := inode.ctime % 2 ^ 64
  extents := inode.extents.map fun extent => ⟨extent.start % 2 ^ 32, extent.len % 2 ^ 32⟩
  extents_length := by rw [length_map, inode.extents_length]

lemma length_fields (inode : Inode) : inode.fields.length = fieldWidths.length := by
  have hlen := inode.extents_length
  have hflat : ∀ extents : List Extent,
      (extents.flatMap fun extent => [extent.start, extent.len]).length = 2 * extents.length := by
    intro extents
    induction extents with
    | nil => rfl
    | cons extent rest ih =>
      rw [flatMap_cons, length_append]
      simp only [length_cons, length_nil]
      omega
  unfold fields
  rw [length_append, hflat, hlen]
  rfl

lemma length_encode (inode : Inode) : inode.encode.length = inodeSize := by
  unfold encode
  rw [length_encodeFields _ _ inode.length_fields]
  rfl

lemma decode_encode (inode : Inode) : decode inode.encode = inode.wrapped := by
  unfold decode encode
  rw [decodeFields_encodeFields _ _ inode.length_fields]
  obtain ⟨used, size, type, mode, uid, gid, nlink, atime, mtime, ctime, extents, hlen⟩ := inode
  match extents, hlen with
  | [e0, e1, e2, e3, e4, e5, e6, e7], _ => rfl

lemma decode_take_lt (bytes : List UInt8) : LittleEndian.decode (bytes.take 4) < 2 ^ 32 := by
  have hlt := LittleEndian.decode_lt (bytes.take 4)
  have hpow : 256 ^ (bytes.take 4).length ≤ 256 ^ 4 :=
    Nat.pow_le_pow_right (by decide) (length_take_le 4 bytes)
  exact hlt.trans_le hpow

lemma used_decode_lt (bytes : List UInt8) : (decode bytes).used < 2 ^ 32 := decode_take_lt bytes

lemma size_decode_lt (bytes : List UInt8) : (decode bytes).size < 2 ^ 32 :=
  decode_take_lt (bytes.drop 4)

end Inode

end NexOS.Nxfs
