import NexOS.Nxfs.Fragments

/-! # Directories and paths

Looking a path up changes nothing and finds used inodes. Adding an entry writes
one block of the directory and its inode, and may grow the directory first.
-/

namespace NexOS.Nxfs

open Program.Ends Disk Function List

open Program (ReadOnly)

/-! ## Looking -/

lemma readOnly_readBlock (block : Nat) : ReadOnly serve (readBlock block) := fun _ => rfl

lemma readOnly_readInodeBlock (inode : Inode) (logicalBlock : Nat) :
    ReadOnly serve (readInodeBlock inode logicalBlock) :=
  (Program.readOnly_ofOption _).bind fun physical => readOnly_readBlock physical

lemma readOnly_findDirEntrySlot (dir : Inode) (want : Option (List UInt8)) :
    ReadOnly serve (findDirEntrySlot dir want) := by
  have hloop : ∀ count blockIndex, ReadOnly serve (findDirEntryFrom dir want count blockIndex) := by
    intro count
    induction count with
    | zero => exact fun _ => Program.readOnly_fail
    | succ count ih =>
      intro blockIndex
      refine (readOnly_readInodeBlock dir blockIndex).bind fun block => ?_
      cases block.findSlot want with
      | none => exact ih (blockIndex + 1)
      | some slot => exact Program.readOnly_pure _
  exact hloop dir.blockCount 0

lemma readOnly_listDir (dir : Inode) : ReadOnly serve (listDir dir) := by
  have hloop : ∀ count blockIndex, ReadOnly serve (listDirFrom dir count blockIndex) := by
    intro count
    induction count with
    | zero => exact fun _ => Program.readOnly_pure _
    | succ count ih =>
      intro blockIndex
      refine (readOnly_readInodeBlock dir blockIndex).bind fun block => ?_
      exact (ih (blockIndex + 1)).bind fun names => Program.readOnly_pure _
  exact (Program.readOnly_require _).bind fun _ => hloop dir.blockCount 0

lemma readOnly_dirIsEmpty (dir : Inode) : ReadOnly serve (dirIsEmpty dir) := by
  unfold dirIsEmpty
  split
  · exact Program.readOnly_pure _
  refine (readOnly_listDir dir).attempt.bind fun names => ?_
  cases names with
  | none => exact Program.readOnly_pure _
  | some names => exact Program.readOnly_pure _

/-! ## Finding -/

/-- The inode is in use and stored at the index. -/
structure Super.Found (super : Super) (d : Disk) (index : Nat) (inode : Inode) : Prop where
  lt : index < maxInodes
  stored : inode = super.inodeAt d index
  used : inode.used ≠ 0

lemma ends_readInode (super : Super) (index : Nat) (d : Disk) :
    (readInode super index).Ends serve d fun r d' =>
      d' = d ∧ ∀ inode, r = some inode → super.Found d index inode := by
  refine of_exec (exec_readInode super index d) ⟨rfl, fun inode hsome => ?_⟩
  split at hsome
  next hfound =>
    cases hsome
    exact ⟨hfound.1, rfl, hfound.2⟩
  · cases hsome

lemma ends_lookupPath (super : Super) (path : List UInt8) (d : Disk) :
    (lookupPath super path).Ends serve d fun r d' =>
      d' = d ∧ ∀ x, r = some x → super.Found d x.1 x.2 := by
  have hloop : ∀ fuel path current, (lookupFrom super fuel path current).Ends serve d fun r d' =>
        d' = d ∧ ∀ x, r = some x → super.Found d x.1 x.2 := by
    intro fuel
    induction fuel with
    | zero => exact fun _ _ => ⟨rfl, nofun⟩
    | succ fuel ih =>
      intro path current
      refine Program.ends_ofOption_bind (fun _ => ⟨rfl, nofun⟩) fun segment _ => ?_
      refine Program.ends_require_bind (fun _ => ⟨rfl, nofun⟩) fun _ => ?_
      refine bind ((readOnly_findDirEntrySlot current _).ends d)
        (fun d' h => ⟨h.1, nofun⟩) fun entry d' h => ?_
      obtain ⟨rfl, -⟩ := h
      refine bind (ends_readInode super _ d') (fun d'' h => ⟨h.1, nofun⟩) fun child d'' h => ?_
      obtain ⟨rfl, hfound⟩ := h
      split
      · exact ⟨rfl, fun x hx => Option.some.inj hx ▸ hfound child rfl⟩
      · exact ih _ _
  refine bind (ends_readInode super rootInode d) (fun d' h => ⟨h.1, nofun⟩) fun root d' h => ?_
  obtain ⟨rfl, hfound⟩ := h
  refine Program.ends_require_bind (fun _ => ⟨rfl, nofun⟩) fun _ => ?_
  dsimp only
  split
  · exact ⟨rfl, fun x hx => Option.some.inj hx ▸ hfound root rfl⟩
  · exact hloop _ _ _

lemma readOnly_lookupPath (super : Super) (path : List UInt8) :
    ReadOnly serve (lookupPath super path) := fun d => (ends_lookupPath super path d).1

lemma ends_lookupDir (super : Super) (parentPath : List UInt8) (d : Disk) :
    (lookupDir super parentPath).Ends serve d fun r d' =>
      d' = d ∧ ∀ x, r = some x → super.Found d x.1 x.2 ∧ x.2.type = typeDir := by
  unfold lookupDir
  split
  · refine bind (ends_readInode super rootInode d) (fun d' h => ⟨h.1, by simp⟩) fun root d' h => ?_
    obtain ⟨rfl, hfound⟩ := h
    refine Program.ends_require_bind (fun _ => ⟨rfl, by simp⟩) fun hdir => ?_
    exact ⟨rfl, fun x hx => Option.some.inj hx ▸ ⟨hfound root rfl, hdir⟩⟩
  · refine bind (ends_lookupPath super parentPath d) (fun d' h => ⟨h.1, by simp⟩) fun dir d' h => ?_
    obtain ⟨rfl, hfound⟩ := h
    refine Program.ends_require_bind (fun _ => ⟨rfl, by simp⟩) fun hdir => ?_
    exact ⟨rfl, fun x hx => Option.some.inj hx ▸ ⟨hfound dir rfl, hdir⟩⟩

lemma ends_resolveParentDir (super : Super) (path : List UInt8) (d : Disk) :
    (resolveParentDir super path).Ends serve d fun r d' =>
      d' = d ∧ ∀ x, r = some x → super.Found d x.1 x.2.1 ∧ x.2.1.type = typeDir := by
  refine Program.ends_require_bind (fun _ => ⟨rfl, nofun⟩) fun _ => ?_
  refine Program.ends_ofOption_bind (fun _ => ⟨rfl, nofun⟩) fun parts _ => ?_
  refine bind (ends_lookupDir super parts.1 d) (fun d' h => ⟨h.1, nofun⟩) fun parent d' h => ?_
  obtain ⟨rfl, hfound⟩ := h
  exact ⟨rfl, fun x hx => Option.some.inj hx ▸ hfound parent rfl⟩

lemma ends_findFreeInode (super : Super) (d : Disk) : (findFreeInode super).Ends serve d fun r d' =>
      d' = d ∧ ∀ index, r = some index → index < maxInodes ∧ (super.inodeAt d index).used = 0 := by
  have hloop : ∀ count index, index + count = maxInodes →
      (findFreeInodeFrom super count index).Ends serve d fun r d' =>
        d' = d ∧ ∀ index, r = some index →
          index < maxInodes ∧ (super.inodeAt d index).used = 0 := by
    intro count
    induction count with
    | zero => exact fun _ _ => ⟨rfl, nofun⟩
    | succ count ih =>
      intro index hindex
      refine bind_of_some (Program.exec_attempt _ _ d) ?_
      rw [exec_readInode]
      split
      next hnone =>
        refine ⟨rfl, fun other hother => ?_⟩
        cases hother
        split at hnone
        · cases hnone
        next hfree =>
          have hlt : index < maxInodes := by omega
          refine ⟨hlt, ?_⟩
          by_contra hused
          exact hfree ⟨hlt, hused⟩
      · exact ih (index + 1) (by omega)
  exact hloop maxInodes 0 (Nat.zero_add _)

/-- A new path gets the directory it names and a free inode. -/
lemma ends_prepareCreate (super : Super) (path parentPath : List UInt8) (d : Disk) :
    (prepareCreate super path parentPath).Ends serve d fun r d' =>
      d' = d ∧ ∀ x, r = some x → super.Found d x.1 x.2.1 ∧
        x.2.2 < maxInodes ∧ (super.inodeAt d x.2.2).used = 0 := by
  refine bind (ends_lookupDir super parentPath d) (fun d' h => ⟨h.1, nofun⟩) fun parent d' h => ?_
  obtain ⟨rfl, hfound⟩ := h
  refine bind_attempt ((readOnly_lookupPath super path).ends d') fun existing d'' h => ?_
  obtain ⟨rfl, -⟩ := h
  refine Program.ends_require_bind (fun _ => ⟨rfl, nofun⟩) fun _ => ?_
  refine bind (ends_findFreeInode super d'') (fun d' h => ⟨h.1, nofun⟩) fun index d' h => ?_
  obtain ⟨rfl, hfree⟩ := h
  exact ⟨rfl, fun x hx => Option.some.inj hx ▸ ⟨(hfound parent rfl).1, hfree index rfl⟩⟩

/-! ## Changing a directory -/

namespace Layout

variable {L : Layout} {d d' d'' : Disk} {dir inode : Inode} {index start : Nat}

/-- The blocks of the inode lie in the data region, without repetition. -/
structure Within (layout : Layout) (inode : Inode) : Prop where
  nodup : inode.blocks.Nodup
  inside : ∀ block ∈ inode.blocks, layout.InData block

lemma Within.bounded (hwithin : L.Within inode) : inode.Bounded L.totalBlocks :=
  ⟨hwithin.nodup, fun block h => (hwithin.inside block h).2, L.total_small⟩

lemma Holds.within (hholds : L.Holds d inode) : L.Within inode :=
  ⟨hholds.nodup, fun block h => (hholds.inside block h).1⟩

/-- Up to `2 ^ 31` blocks, every block of a file has a number that is no
negative `int`. -/
lemma Within.logicalToPhysical (hwithin : L.Within inode) (hsmall : L.IntSized)
    (logical : Nat) : inode.logicalToPhysical logical = inode.blocks[logical]? := by
  rw [hwithin.bounded.logicalToPhysical]
  cases hblock : inode.blocks[logical]? with
  | none => rfl
  | some block =>
    have hlt := (hwithin.inside block (mem_of_getElem? hblock)).2
    rw [Option.filter_some, if_pos (decide_eq_true (hsmall.lt hlt))]

/-- Writing a block of a file writes one of its blocks. -/
lemma ends_readInodeBlock (hwithin : L.Within inode) {logicalBlock : Nat}
    (hlt : logicalBlock < inode.blocks.length) (d : Disk) :
    (readInodeBlock inode logicalBlock).Ends serve d fun r d' =>
      d' = d ∧ (r = none → ¬L.IntSized) := by
  refine Program.ends_ofOption_bind (fun hnone => ⟨rfl, fun _ hsmall => ?_⟩) fun _ _ => ⟨rfl, nofun⟩
  rw [hwithin.logicalToPhysical hsmall, getElem?_eq_none_iff] at hnone
  omega

lemma ends_writeInodeBlock (hwithin : L.Within inode) (logicalBlock : Nat) (data : Block)
    (d : Disk) :
    (writeInodeBlock inode logicalBlock data).Ends serve d fun r d' =>
      (r = none ∧ d' = d ∧ (L.IntSized → inode.blocks.length ≤ logicalBlock)) ∨
      (r = some () ∧ ∃ block ∈ inode.blocks, inode.blocks[logicalBlock]? = some block ∧
          d' = update d (UInt32.ofNat block) data) := by
  refine Program.ends_ofOption_bind (fun hnone => .inl ⟨rfl, rfl, fun hsmall => ?_⟩)
    fun block hblock => ?_
  · rwa [hwithin.logicalToPhysical hsmall, getElem?_eq_none_iff] at hnone
  · rw [hwithin.bounded.logicalToPhysical, Option.filter_eq_some_iff] at hblock
    exact .inr ⟨rfl, block, mem_of_getElem? hblock.1, hblock.1, rfl⟩

/-- Writing a data block leaves the metadata. -/
lemma sameMeta_write (L : Layout) (d : Disk) {block : Nat} (hblock : L.InData block)
    (data : Block) : L.SameMeta d (update d (UInt32.ofNat block) data) :=
  L.sameMeta_of_agree (agree_update d data (InData.small hblock) L.dataStart_small (.inr hblock.1))

/-- One block of a directory and its inode are written. -/
structure PutsEntry (layout : Layout) (d d' : Disk) (index : Nat) (dir : Inode) : Prop
    extends layout.Writes d d' index dir.withDirSize where
  data : ∀ block, layout.InData block → block ∉ dir.blocks →
    d' (UInt32.ofNat block) = d (UInt32.ofNat block)

/-- The common end of adding and of removing an entry. -/
lemma putsEntry_of_writes {block : Nat} {data : Block} (hwithin : L.Within dir)
    (hblock : block ∈ dir.blocks)
    (hputs : L.Puts (update d (UInt32.ofNat block) data) d' index dir.withDirSize) :
    L.PutsEntry d d' index dir := by
  have hdata := hwithin.inside block hblock
  have hsame := L.sameMeta_write d hdata data
  refine ⟨⟨hputs.self, ?_, ?_⟩, ?_⟩
  · intro other hother hne
    rw [hputs.others other hother hne, hsame.inodes other hother]
  · intro other hother
    rw [hputs.bits other hother, hsame.bits other hother]
  · intro other hother hnot
    rw [hputs.data other hother.1 (InData.small hother), update_of_ne]
    rw [ne_eq, ofNat_inj (InData.small hother) (InData.small hdata)]
    rintro rfl
    exact hnot hblock

lemma ends_dirWriteEntry (hindex : index < maxInodes) (hwithin : L.Within dir)
    (blockIndex slot child : Nat) (name : List UInt8) (d : Disk) :
    (dirWriteEntry L.toSuper index dir blockIndex slot child name).Ends serve d fun r d' =>
        (r = none ∧ d' = d ∧ (L.IntSized → dir.blocks.length ≤ blockIndex)) ∨
        (r = some () ∧ L.PutsEntry d d' index dir) := by
  have hread : (dirBlock dir blockIndex).Ends serve d fun r d' =>
      d' = d ∧ (r = none → L.IntSized → dir.blocks.length ≤ blockIndex) := by
    unfold dirBlock
    split
    · refine Program.ends_ofOption_bind (fun hnone => ⟨rfl, fun _ hsmall => ?_⟩)
        fun block _ => ⟨rfl, nofun⟩
      rwa [hwithin.logicalToPhysical hsmall, getElem?_eq_none_iff] at hnone
    · exact ⟨rfl, nofun⟩
  refine bind hread (fun d' h => .inl ⟨rfl, h.1, h.2 rfl⟩) fun block d' h => ?_
  obtain ⟨rfl, -⟩ := h
  refine bind (ends_writeInodeBlock hwithin blockIndex _ d') ?_ ?_
  · rintro d'' (⟨-, rfl, hlen⟩ | ⟨hbad, -⟩)
    · exact .inl ⟨rfl, rfl, hlen⟩
    · cases hbad
  · rintro value d'' (⟨hbad, -⟩ | ⟨-, physical, hmem, -, rfl⟩)
    · cases hbad
    · obtain ⟨d₃, hexec, hputs⟩ := exec_writeInode L hindex dir.withDirSize
        (update d' (UInt32.ofNat physical) (block.setEntry slot child name))
      exact of_exec hexec (.inr ⟨rfl, putsEntry_of_writes hwithin hmem hputs⟩)

/-- A matching entry lies in a block of the directory. -/
lemma ends_findDirEntrySlot (dir : Inode) (want : Option (List UInt8)) (d : Disk) :
    (findDirEntrySlot dir want).Ends serve d fun r d' =>
      d' = d ∧ (findDirEntrySlot dir want).exec serve d = (r, d) ∧
        ∀ entry, r = some entry → entry.2.1 < dir.blockCount := by
  have hloop : ∀ count blockIndex, blockIndex + count = dir.blockCount →
      (findDirEntryFrom dir want count blockIndex).Ends serve d fun r _ =>
        ∀ entry, r = some entry → entry.2.1 < dir.blockCount := by
    intro count
    induction count with
    | zero => exact fun _ _ => nofun
    | succ count ih =>
      intro blockIndex hcount
      refine bind ((readOnly_readInodeBlock dir blockIndex).ends d) (fun _ _ => nofun)
        fun block d' h => ?_
      obtain ⟨rfl, -⟩ := h
      rcases block.findSlot want with _ | slot
      · exact ih (blockIndex + 1) (by omega)
      intro entry hentry
      cases hentry
      dsimp only
      omega
  obtain ⟨hsame, hexec⟩ := (readOnly_findDirEntrySlot dir want).ends d
  exact ⟨hsame, hexec, hloop dir.blockCount 0 (Nat.zero_add _)⟩

/-- Removing an entry writes the directory back, if the entry is there. -/
lemma ends_dirRemoveEntry (hindex : index < maxInodes) (hwithin : L.Within dir)
    (name : List UInt8) (d : Disk) :
    (dirRemoveEntry L.toSuper index dir name).Ends serve d fun r d' =>
      (r = none ∧ d' = d ∧ (L.IntSized → ((dirLookupEntry dir name).exec serve d).1 = none)) ∨
      (r = some dir.withDirSize ∧ L.PutsEntry d d' index dir ∧
        ((dirLookupEntry dir name).exec serve d).1 ≠ none) := by
  refine bind (ends_findDirEntrySlot dir (some name) d) ?_ ?_
  · rintro d' ⟨rfl, hexec, -⟩
    exact .inl ⟨rfl, rfl, fun _ => congrArg Prod.fst hexec⟩
  rintro ⟨child, blockIndex, slot⟩ d' ⟨rfl, hexec, hin⟩
  have hlt : blockIndex < dir.blocks.length := by
    rw [← hwithin.bounded.blockCount]
    exact hin _ rfl
  have hfound : ((dirLookupEntry dir name).exec serve d').1 ≠ none := by
    intro hnone
    rw [show (dirLookupEntry dir name).exec serve d' = _ from hexec] at hnone
    cases hnone
  refine bind (ends_readInodeBlock hwithin hlt d') ?_ ?_
  · rintro d'' ⟨rfl, hbig⟩
    exact .inl ⟨rfl, rfl, fun hsmall => absurd hsmall (hbig rfl)⟩
  rintro block d'' ⟨rfl, -⟩
  refine bind (ends_writeInodeBlock hwithin blockIndex _ d'') ?_ ?_
  · rintro d' (⟨-, rfl, hlen⟩ | ⟨hbad, -⟩)
    · refine .inl ⟨rfl, rfl, fun hsmall => ?_⟩
      have hle := hlen hsmall
      omega
    · cases hbad
  · rintro value d' (⟨hbad, -⟩ | ⟨-, physical, hmem, -, rfl⟩)
    · cases hbad
    obtain ⟨d₃, hexec, hputs⟩ := exec_writeInode L hindex dir.withDirSize
      (update d'' (UInt32.ofNat physical) (block.setEntry slot 0 []))
    refine bind_of_some hexec ?_
    exact .inr ⟨rfl, putsEntry_of_writes hwithin hmem hputs, hfound⟩

/-! ## Adding an entry -/

/-- Making room for an entry in a full directory strands blocks. -/
def SlotStrands (layout : Layout) (d : Disk) (bits : Nat → Bool) (dir : Inode) : Prop :=
  ((findDirEntrySlot dir none).exec serve d).1 = none ∧
    layout.Strands bits dir ((dir.blockCount + dirGrowBlocks) % wordLimit)

/-- Adding an entry strands blocks: the name is new and there is no room. -/
def EntryStrands (layout : Layout) (d : Disk) (bits : Nat → Bool) (dir : Inode)
    (name : List UInt8) : Prop :=
  ¬(name.isEmpty ∨ nameSize ≤ name.length) ∧
    ((dirLookupEntry dir name).exec serve d).1 = none ∧ layout.SlotStrands d bits dir

/-- What a directory is searched for depends on its blocks only. -/
lemma exec_findDirEntrySlot_congr (hwithin : L.Within dir)
    (hdata : ∀ block ∈ dir.blocks, d' (UInt32.ofNat block) = d (UInt32.ofNat block))
    (want : Option (List UInt8)) :
    ((findDirEntrySlot dir want).exec serve d').1 =
      ((findDirEntrySlot dir want).exec serve d).1 := by
  have hread : ∀ blockIndex, (readInodeBlock dir blockIndex).exec serve d' =
      (((readInodeBlock dir blockIndex).exec serve d).1, d') := by
    intro blockIndex
    unfold readInodeBlock
    rcases hphys : dir.logicalToPhysical blockIndex with _ | block
    · rfl
    rw [hwithin.bounded.logicalToPhysical, Option.filter_eq_some_iff] at hphys
    have hsame := hdata block (mem_of_getElem? hphys.1)
    exact congrArg (fun data => (some data, d')) hsame
  have hloop : ∀ count blockIndex, ((findDirEntryFrom dir want count blockIndex).exec serve d').1 =
        ((findDirEntryFrom dir want count blockIndex).exec serve d).1 := by
    intro count
    induction count with
    | zero => exact fun _ => rfl
    | succ count ih =>
      intro blockIndex
      obtain ⟨-, hexec⟩ := (readOnly_readInodeBlock dir blockIndex).ends d
      unfold findDirEntryFrom
      rw [Program.exec_bind, Program.exec_bind, hread blockIndex]
      rw [hexec]
      rcases ((readInodeBlock dir blockIndex).exec serve d).1 with _ | block
      · rfl
      dsimp only
      cases block.findSlot want with
      | none => exact ih (blockIndex + 1)
      | some slot => rfl
  exact hloop dir.blockCount 0

/-- So does whether adding an entry strands blocks, given the bits. -/
lemma entryStrands_congr {bits bits' : Nat → Bool} (hwithin : L.Within dir)
    (hdata : ∀ block ∈ dir.blocks, d' (UInt32.ofNat block) = d (UInt32.ofNat block))
    (hbits : L.SameBits bits' bits) (name : List UInt8) :
    L.EntryStrands d' bits' dir name ↔ L.EntryStrands d bits dir name := by
  unfold EntryStrands SlotStrands dirLookupEntry
  rw [exec_findDirEntrySlot_congr hwithin hdata, exec_findDirEntrySlot_congr hwithin hdata,
    hbits.strands]

/-- How looking for a free slot ends. -/
inductive FindsSlot (layout : Layout) (d : Disk) (dir : Inode) :
    Option (Inode × Option (Nat × Nat)) → Disk → Prop where
  | found {gained lost : List Nat} {dir' : Inode} {d' : Disk} (hheader : dir.SameHeader dir')
      (hblocks : dir'.blocks.Perm (dir.blocks ++ gained))
      (htakes : layout.Takes d d' (gained ++ lost)) (slot : Nat × Nat)
      (hexact : layout.IntSized →
        lost = [] ∧ slot.1 < dir'.blocks.length ∧ ¬layout.SlotStrands d (layout.bitAt d) dir) :
      FindsSlot layout d dir (some (dir', some slot)) d'
  | full {lost : List Nat} {d' : Disk} (htakes : layout.Takes d d' lost)
      (hexact : layout.IntSized → (lost ≠ [] ↔ layout.SlotStrands d (layout.bitAt d) dir)) :
      FindsSlot layout d dir (some (dir, none)) d'

lemma ends_dirFindFreeSlot (hholds : L.Holds d dir) :
    (dirFindFreeSlot L.toSuper dir).Ends serve d (L.FindsSlot d dir) := by
  have hcount := hholds.bounded.blockCount
  refine bind_attempt (ends_findDirEntrySlot dir none d) ?_
  rintro found d' ⟨rfl, hexec, hin⟩
  have hsame : dir.blocks.Perm (dir.blocks ++ []) := .of_eq (append_nil _).symm
  cases found with
  | some entry =>
    refine .found (.refl dir) hsame (takes_refl L d') _ fun _ => ⟨rfl, ?_, ?_⟩
    · rw [← hcount]
      exact hin entry rfl
    · rintro ⟨hnone, -⟩
      rw [hexec] at hnone
      cases hnone
  | none =>
    have hnone : ((findDirEntrySlot dir none).exec serve d').1 = none :=
      congrArg Prod.fst hexec
    refine bind_attempt (ends_ensureBlocks hholds _) fun grown d'' hgrows => ?_
    cases hgrows with
    | done hhdr hblocks hlen htakes _ hexact =>
      refine .found hhdr hblocks htakes _ fun hsmall => ⟨(hexact hsmall).1, ?_, ?_⟩
      · have hle := hholds.bounded.length_le
        have htotal : L.totalBlocks ≤ 2147483648 := hsmall
        have hgrow : dirGrowBlocks = 8 := rfl
        have hlimit : wordLimit = 4294967296 := rfl
        rw [hlen, Nat.mod_eq_of_lt (by omega)]
        omega
      · exact fun h => (hexact hsmall).2 h.2
    | failed htakes hexact =>
      refine .full htakes fun hsmall => ?_
      rw [hexact hsmall]
      exact ⟨fun h => ⟨hnone, h⟩, And.right⟩

/-- How adding an entry ends. The caller's copy of the directory may have grown
even when no entry is added. -/
inductive AddsEntry (layout : Layout) (d : Disk) (index : Nat) (dir : Inode)
    (name : List UInt8) : Option (Inode × Option Unit) → Disk → Prop where
  | refused {gained lost : List Nat} {dir' : Inode} {d' : Disk} (hheader : dir.SameHeader dir')
      (hblocks : dir'.blocks.Perm (dir.blocks ++ gained))
      (htakes : layout.Takes d d' (gained ++ lost))
      (hexact : layout.IntSized →
        gained = [] ∧ (lost ≠ [] ↔ layout.EntryStrands d (layout.bitAt d) dir name)) :
      AddsEntry layout d index dir name (some (dir', none)) d'
  | added {gained lost : List Nat} {dir' : Inode} {d₁ d' : Disk} (hheader : dir.SameHeader dir')
      (hblocks : dir'.blocks.Perm (dir.blocks ++ gained))
      (htakes : layout.Takes d d₁ (gained ++ lost)) (hputs : layout.PutsEntry d₁ d' index dir')
      (hexact : layout.IntSized → lost = [] ∧ ¬layout.EntryStrands d (layout.bitAt d) dir name) :
      AddsEntry layout d index dir name (some (dir'.withDirSize, some ())) d'

lemma ends_dirAddEntry (hindex : index < maxInodes) (hholds : L.Holds d dir)
    (name : List UInt8) (child : Nat) :
    (dirAddEntry L.toSuper index dir name child).Ends serve d (L.AddsEntry d index dir name) := by
  have hsame : dir.blocks.Perm (dir.blocks ++ []) := .of_eq (append_nil _).symm
  have hnop : ¬L.EntryStrands d (L.bitAt d) dir name →
      L.AddsEntry d index dir name (some (dir, none)) d := fun hnot =>
    .refused (.refl dir) hsame (show L.Takes d d ([] ++ []) from takes_refl L d)
      fun _ => ⟨rfl, iff_of_false (fun h => h rfl) hnot⟩
  unfold dirAddEntry
  split
  next hname => exact hnop fun h => h.1 hname
  next hname =>
    refine bind_attempt ((readOnly_findDirEntrySlot dir (some name)).ends d) ?_
    rintro existing d' ⟨rfl, hexec⟩
    cases existing with
    | some entry =>
      refine hnop ?_
      rintro ⟨-, hnone, -⟩
      rw [show (dirLookupEntry dir name).exec serve d' = _ from hexec] at hnone
      cases hnone
    | none =>
      have hnew : ((dirLookupEntry dir name).exec serve d').1 = none :=
        congrArg Prod.fst hexec
      refine bind (ends_dirFindFreeSlot hholds) (fun d'' h => by cases h) fun slot d'' hslot => ?_
      cases hslot with
      | @full lost _ htakes hexact =>
        refine .refused (.refl dir) hsame (show L.Takes d' d'' ([] ++ lost) from htakes)
          fun hsmall => ⟨rfl, ?_⟩
        rw [hexact hsmall]
        exact ⟨fun h => ⟨hname, hnew, h⟩, fun h => h.2.2⟩
      | found hhdr hblocks htakes slot hexact =>
        have hwithin := (hholds.gain htakes hblocks).within
        refine bind_attempt (ends_dirWriteEntry hindex hwithin slot.1 slot.2 child name d'') ?_
        rintro written d₃ (⟨rfl, rfl, hlen⟩ | ⟨rfl, hputs⟩)
        · refine .refused hhdr hblocks htakes fun hsmall => ?_
          have hle := hlen hsmall
          have hlt := (hexact hsmall).2.1
          omega
        · exact .added hhdr hblocks htakes hputs fun hsmall =>
            ⟨(hexact hsmall).1, fun h => (hexact hsmall).2.2 h.2.2⟩

/-! ## A directory of one block -/

variable (hsmall : L.IntSized)

include hsmall

lemma exec_readInodeBlock_one (hwithin : L.Within dir) (hone : dir.blocks = [start]) (d : Disk) :
    (readInodeBlock dir 0).exec serve d = (some (d (UInt32.ofNat start)), d) := by
  unfold readInodeBlock
  rw [hwithin.logicalToPhysical hsmall, hone]
  rfl

lemma exec_findDirEntrySlot_one (hwithin : L.Within dir)
    (hone : dir.blocks = [start]) (want : Option (List UInt8)) (d : Disk) :
    (findDirEntrySlot dir want).exec serve d =
      (((d (UInt32.ofNat start)).findSlot want).map fun slot =>
        ((d (UInt32.ofNat start)).entryInode slot, 0, slot), d) := by
  have hcount : dir.blockCount = 1 := by
    rw [hwithin.bounded.blockCount, hone, length_singleton]
  unfold findDirEntrySlot
  rw [hcount]
  unfold findDirEntryFrom
  rw [Program.exec_bind_of_some _ (exec_readInodeBlock_one hsmall hwithin hone d)]
  cases (d (UInt32.ofNat start)).findSlot want with
  | none => rfl
  | some slot => rfl

/-- A directory of one block with a free slot takes a new name there. -/
lemma exec_dirAddEntry_one (hindex : index < maxInodes) {slot : Nat}
    (hwithin : L.Within dir) (hone : dir.blocks = [start]) {name : List UInt8}
    (hname : ¬(name.isEmpty ∨ nameSize ≤ name.length))
    (hnew : (d (UInt32.ofNat start)).findSlot (some name) = none)
    (hslot : (d (UInt32.ofNat start)).findSlot none = some slot) (child : Nat) :
    (dirAddEntry L.toSuper index dir name child).Ends serve d fun r d' =>
      r = some (dir.withDirSize, some ()) ∧
        d' (UInt32.ofNat start) = (d (UInt32.ofNat start)).setEntry slot child name := by
  have hdata : L.InData start := hwithin.inside start (by rw [hone]; exact mem_singleton_self _)
  have hcount : dir.blockCount = 1 := by
    rw [hwithin.bounded.blockCount, hone, length_singleton]
  unfold dirAddEntry
  rw [if_neg hname]
  refine bind_of_some (Program.exec_attempt _ _ d) ?_
  unfold dirLookupEntry
  rw [exec_findDirEntrySlot_one hsmall hwithin hone, hnew]
  have hfree : (dirFindFreeSlot L.toSuper dir).exec serve d = (some (dir, some (0, slot)), d) := by
    unfold dirFindFreeSlot
    rw [Program.exec_bind_of_some _ (Program.exec_attempt _ _ d),
      exec_findDirEntrySlot_one hsmall hwithin hone, hslot]
    rfl
  refine bind_of_some hfree ?_
  refine bind_of_some (Program.exec_attempt _ _ d) ?_
  have hblock : (dirBlock dir 0).exec serve d = (some (d (UInt32.ofNat start)), d) := by
    unfold dirBlock
    rw [if_pos (by omega), exec_readInodeBlock_one hsmall hwithin hone]
  have hstore : (writeInodeBlock dir 0 ((d (UInt32.ofNat start)).setEntry slot child name)).exec
      serve d = (some (), update d (UInt32.ofNat start)
        ((d (UInt32.ofNat start)).setEntry slot child name)) := by
    unfold writeInodeBlock
    rw [hwithin.logicalToPhysical hsmall, hone]
    rfl
  obtain ⟨d', hexec, hputs⟩ := exec_writeInode L hindex dir.withDirSize
    (update d (UInt32.ofNat start) ((d (UInt32.ofNat start)).setEntry slot child name))
  unfold dirWriteEntry
  rw [Program.exec_bind_of_some _ hblock, Program.exec_bind_of_some _ hstore, hexec]
  refine ⟨rfl, ?_⟩
  exact (hputs.data start hdata.1 (InData.small hdata)).trans (update_self _ _ _)

end Layout

end NexOS.Nxfs
