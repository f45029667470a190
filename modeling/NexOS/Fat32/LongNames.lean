import NexOS.Fat32.Scan

/-! # Long names

A long name is stored in pieces of thirteen characters, the last piece first. The
pieces of a new entry are read back as its name if there are at most nineteen of
them: the twentieth reaches over the end of the buffer that the name is read to, and
then the whole name is dropped.
-/

namespace NexOS.Fat32

open List

variable {name : Name} {total order : Nat} {checksum : UInt8} {state : LfnState} {count : Nat}

/-! ## Characters of a piece -/

lemma lfnValue_lt (name : Name) (index : Nat) : lfnValue name index < 65536 := by
  unfold lfnValue
  have hbyte := (name.getD index 0).toNat_lt
  split_ifs <;> omega

/-- The characters of a piece are read as they were written. -/
lemma lfnChar_populate {i : Nat} (hi : i < 13) :
    (populateLfnDirent name total order checksum).lfnChar i =
      lfnValue name ((order - 1) * 13 + i) := by
  have hvalue := lfnValue_lt name ((order - 1) * 13 + i)
  have hbytes : (populateLfnDirent name total order checksum).lfnChar i =
      (lfnByte name order i 0).toNat + 256 * (lfnByte name order i 1).toNat := by
    interval_cases i <;> rfl
  rw [hbytes, lfnByte, lfnByte, if_pos rfl, if_neg Nat.one_ne_zero, UInt8.toNat_ofNat',
    UInt8.toNat_ofNat']
  omega

/-- The byte for a character of 16 bits. -/
def lfnDecode (value : Nat) : UInt8 :=
  if value = 0 ∨ value = 0xffff then 0 else if value < 256 then UInt8.ofNat value else 0x3f

lemma lfnDecode_lfnValue (name : Name) (index : Nat) :
    lfnDecode (lfnValue name index) = name.getD index 0 := by
  have hbyte := (name.getD index 0).toNat_lt
  by_cases hlt : index < name.length
  · rw [lfnValue, if_pos hlt, lfnDecode]
    by_cases hzero : name.getD index 0 = 0
    · rw [hzero]
      rfl
    · have hne : (name.getD index 0).toNat ≠ 0 :=
        fun h => hzero (UInt8.toNat_inj.mp (by simpa using h))
      rw [if_neg (by omega), if_pos hbyte, UInt8.ofNat_toNat]
  · have hdefault : name.getD index 0 = 0 := by simp [getElem?_eq_none (Nat.le_of_not_lt hlt)]
    rw [hdefault, lfnValue]
    split_ifs <;> rfl

lemma lfnAppendChar_eq (dst : Nat → UInt8) (index value : Nat) : lfnAppendChar dst index value =
      if 255 ≤ index then none else some (Function.update dst index (lfnDecode value)) := by
  unfold lfnAppendChar nameBufferSize
  by_cases hfull : 255 ≤ index
  · rw [if_pos (by omega), if_pos hfull]
  · rw [if_neg (by omega), if_neg hfull]
    rfl

/-- A piece fills its part of the buffer. -/
lemma lfnAppendPiece_eq (dst : Nat → UInt8) (base : Nat) (slot : Slot) (count : Nat) :
    lfnAppendPiece dst base slot count =
      if count ≠ 0 ∧ 255 < base + count then none
      else some fun k => if base ≤ k ∧ k < base + count then lfnDecode (slot.lfnChar (k - base))
        else dst k := by
  induction count with
  | zero =>
    rw [lfnAppendPiece]
    congr
    funext k
    rw [if_neg (by omega)]
  | succ count ih =>
    rw [lfnAppendPiece, ih]
    split
    · rw [if_pos (by omega), Option.bind_none]
    rw [Option.bind_some, lfnAppendChar_eq]
    split
    · rw [if_pos (by omega)]
    rw [if_neg (by omega), Option.some.injEq]
    funext k
    by_cases hk : k = base + count
    · subst hk
      rw [Function.update_self, if_pos (by omega), Nat.add_sub_cancel_left]
    · rw [Function.update_of_ne hk]
      split
      · rw [if_pos (by omega)]
      · rw [if_neg (by omega)]

/-! ## Pieces of a name -/

/-- The first pieces of a long name, last part first. -/
def pieces (name : Name) (total : Nat) (checksum : UInt8) (count : Nat) : List Slot :=
  (List.range count).map fun i => populateLfnDirent name total (total - i) checksum

lemma pieces_succ (name : Name) (total : Nat) (checksum : UInt8) (count : Nat) :
    pieces name total checksum (count + 1) = pieces name total checksum count ++
      [populateLfnDirent name total (total - count) checksum] := by
  simp [pieces, range_succ]

lemma populate_first (hpos : 0 < order) (hle : order ≤ 20) :
    (populateLfnDirent name total order checksum 0 &&& 0x1f).toNat = order ∧
      populateLfnDirent name total order checksum 0 ≠ 0 ∧
      populateLfnDirent name total order checksum 0 ≠ 0xe5 ∧
      ((populateLfnDirent name total order checksum 0 &&& 0x40) ≠ 0 ↔ order = total) := by
  have hfirst : populateLfnDirent name total order checksum 0 =
      UInt8.ofNat order ||| (if order = total then 0x40 else 0) := rfl
  rw [hfirst]
  by_cases hlast : order = total
  · subst hlast
    interval_cases order <;> decide
  · interval_cases order <;> simp [hlast] <;> decide

lemma isLfn_populate : (populateLfnDirent name total order checksum).isLfn = true := rfl

lemma isFree_populate (hpos : 0 < order) (hle : order ≤ 20) :
    (populateLfnDirent name total order checksum).isFree = false := by
  obtain ⟨-, hzero, hdel, -⟩ := @populate_first name total order checksum hpos hle
  simp [Slot.isFree, Slot.isEnd, Slot.isDeleted, hzero, hdel]

/-- The state that a piece is read in: the last piece starts anew. -/
def startState (total order : Nat) (checksum : UInt8) (state : LfnState) : LfnState :=
  if order = total then
    { valid := true, checksum := checksum, nextOrder := order, totalEntries := order }
  else state

/-- Reading a piece of a name. -/
lemma lfnCapture_populate (state : LfnState) (hpos : 0 < order) (hle : order ≤ 20) :
    lfnCapture state (populateLfnDirent name total order checksum) =
      let start := startState total order checksum state
      if start.valid = false ∨ start.checksum ≠ checksum ∨ start.nextOrder ≠ order ∨ order = 20 then
        {}
      else
        { start with
          name := fun k =>
            if 13 * (order - 1) ≤ k ∧ k < 13 * order then name.getD k 0 else start.name k
          nextOrder := order - 1 } := by
  obtain ⟨horder, -, -, hlast⟩ := @populate_first name total order checksum hpos hle
  have htype : populateLfnDirent name total order checksum 12 = 0 := rfl
  have hsum : populateLfnDirent name total order checksum 13 = checksum := rfl
  have hstart : (if populateLfnDirent name total order checksum 0 &&& 0x40 ≠ 0 then
        ({ valid := true, checksum := checksum, nextOrder := order, totalEntries := order } :
          LfnState)
      else state) = startState total order checksum state := by
    exact if_congr hlast rfl rfl
  rw [lfnCapture]
  simp only [isLfn_populate, horder, htype, hsum, hstart]
  rw [if_neg (by simp; omega)]
  set start := startState total order checksum state
  split
  · rw [if_pos (by tauto)]
  rw [lfnAppendPiece_eq]
  by_cases hlong : order = 20
  · rw [if_pos (by omega), if_pos (by tauto)]
  rw [if_neg (by omega), if_neg (by tauto)]
  have hname : (fun k => if (order - 1) * 13 ≤ k ∧ k < (order - 1) * 13 + 13 then
        lfnDecode ((populateLfnDirent name total order checksum).lfnChar (k - (order - 1) * 13))
      else start.name k) =
      fun k => if 13 * (order - 1) ≤ k ∧ k < 13 * order then name.getD k 0 else start.name k := by
    funext k
    by_cases hk : 13 * (order - 1) ≤ k ∧ k < 13 * order
    · rw [if_pos (by omega), if_pos hk, lfnChar_populate (by omega), lfnDecode_lfnValue,
        Nat.add_sub_cancel' (by omega)]
    · rw [if_neg (by omega), if_neg hk]
  have hnext : start.nextOrder = order := by tauto
  rw [hname, hnext]

/-- What is read after `count` pieces of a name. -/
structure Reads (name : Name) (total : Nat) (checksum : UInt8) (count : Nat) (state : LfnState) :
    Prop where
  valid : state.valid = true
  sum : state.checksum = checksum
  next : state.nextOrder = total - count
  total_eq : state.totalEntries = total
  filled : ∀ k, state.name k =
    if 13 * (total - count) ≤ k ∧ k < 13 * total then name.getD k 0 else 0

/-- Each piece adds its part to what was read. -/
lemma Reads.capture (hle : total ≤ 19) (hcount : count < total)
    (hstate : Reads name total checksum count (startState total (total - count) checksum state)) :
    Reads name total checksum (count + 1)
      (lfnCapture state (populateLfnDirent name total (total - count) checksum)) := by
  rw [lfnCapture_populate state (by omega) (by omega)]
  rw [if_neg (by simp [hstate.valid, hstate.sum, hstate.next]; omega)]
  refine ⟨hstate.valid, hstate.sum, by simp; omega, hstate.total_eq, fun k => ?_⟩
  simp only [hstate.filled k]
  split
  · rw [if_pos (by omega)]
  split
  · rw [if_pos (by omega)]
  · rw [if_neg (by omega)]

lemma stateAfter_pieces_succ (state : LfnState) (hcount : count < total) (hle : total ≤ 20) :
    stateAfter state (pieces name total checksum (count + 1)) =
      lfnCapture (stateAfter state (pieces name total checksum count))
        (populateLfnDirent name total (total - count) checksum) := by
  rw [pieces_succ, stateAfter_append, stateAfter_cons, stateAfter_nil,
    stepState_of_isLfn (isFree_populate (by omega) (by omega)) isLfn_populate]

/-- The pieces of a name of at most 247 characters are read as that name. -/
lemma reads_pieces (state : LfnState) (hle : total ≤ 19) (hpos : 0 < count)
    (hcount : count ≤ total) :
    Reads name total checksum count (stateAfter state (pieces name total checksum count)) := by
  induction count with
  | zero => exact absurd hpos (Nat.lt_irrefl 0)
  | succ count ih =>
    rw [stateAfter_pieces_succ state (by omega) (by omega)]
    apply Reads.capture hle (by omega)
    rcases Nat.eq_zero_or_pos count with rfl | hcountPos
    · rw [startState, if_pos (by omega)]
      refine ⟨rfl, rfl, rfl, rfl, fun k => ?_⟩
      rw [if_neg (by omega)]
    · rw [startState, if_neg (by omega)]
      exact ih hcountPos (by omega)

/-- Of a name with twenty pieces nothing is read. -/
lemma stateAfter_pieces_twenty (state : LfnState) (hpos : 0 < count)
    (hcount : count ≤ 20) : stateAfter state (pieces name 20 checksum count) = {} := by
  induction count with
  | zero => exact absurd hpos (Nat.lt_irrefl 0)
  | succ count ih =>
    rw [stateAfter_pieces_succ state (by omega) le_rfl, lfnCapture_populate _ (by omega) (by omega)]
    rcases Nat.eq_zero_or_pos count with rfl | hcountPos
    · rw [if_pos (by simp)]
    · have hstart : startState 20 (20 - count) checksum {} = {} := by
        rw [startState, if_neg (by omega)]
      rw [ih hcountPos (by omega), hstart, if_pos (.inl rfl)]

/-! ## Complete names -/

lemma bufferText_of_filled {buffer : Nat → UInt8} (hzero : ∀ ch ∈ name, ch ≠ 0)
    (hlen : name.length < nameBufferSize) (hfilled : ∀ k, buffer k = name.getD k 0) :
    bufferText buffer = name := by
  have hmap : (List.range nameBufferSize).map buffer =
      name ++ List.replicate (nameBufferSize - name.length) 0 := by
    apply ext_getElem
    · simp
      omega
    intro k hk hk'
    rw [getElem_map, hfilled]
    by_cases hin : k < name.length
    · simp [hin]
    · rw [getElem_append_right (Nat.le_of_not_lt hin)]
      simp [getElem?_eq_none (Nat.le_of_not_lt hin)]
  rw [bufferText, hmap, takeWhile_append_of_pos fun ch hch => decide_eq_true (hzero ch hch)]
  cases nameBufferSize - name.length <;> simp [replicate_succ]

lemma Reads.ready (hstate : Reads name total checksum total state)
    (hne : name ≠ []) (hzero : ∀ ch ∈ name, ch ≠ 0) (hlen : name.length ≤ 13 * total) :
    state.Ready := by
  obtain ⟨first, rest, rfl⟩ := exists_cons_of_ne_nil hne
  refine ⟨hstate.valid, by rw [hstate.next]; omega, ?_⟩
  rw [hstate.filled, if_pos (by simp at hlen; omega)]
  exact hzero first mem_cons_self

lemma Reads.text (hstate : Reads name total checksum total state)
    (hzero : ∀ ch ∈ name, ch ≠ 0) (hlen : name.length ≤ 13 * total) (hle : total ≤ 19) :
    bufferText state.name = name := by
  apply bufferText_of_filled hzero
  · unfold nameBufferSize
    omega
  · intro k
    rw [hstate.filled]
    by_cases hk : k < 13 * total
    · rw [if_pos (by omega)]
    · simp [getElem?_eq_none (show name.length ≤ k by omega)]

end NexOS.Fat32
