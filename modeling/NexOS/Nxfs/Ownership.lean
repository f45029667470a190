import NexOS.Nxfs.Directories

/-! # Who owns which block

Each operation of the file system, on a disk whose used inodes own disjoint
marked blocks, leads to such a disk again. The blocks that it marks without
handing them to an inode are lost.
-/

namespace NexOS.Nxfs

open Program.Ends Disk List Program

/-! ## Found inodes -/

namespace Super

variable {L : Layout} {d d' : Disk} {index : Nat} {inode : Inode}

lemma Found.heldBy (hfound : L.Found d index inode) : L.heldBy d index = inode.blocks := by
  rw [Super.heldBy, if_pos hfound.lt, Inode.held, ← hfound.stored, if_pos hfound.used]

lemma heldBy_of_unused (hunused : (L.inodeAt d index).used = 0) : L.heldBy d index = [] := by
  rw [Super.heldBy, Inode.held, if_neg (not_not.mpr hunused), ite_self]

/-- A stored inode that is in use keeps its mark of use when it is stored. -/
lemma Found.used_mod (hfound : L.Found d index inode) : inode.used % 2 ^ 32 ≠ 0 := by
  have hlt : inode.used < 2 ^ 32 := by
    rw [hfound.stored]
    exact Inode.used_decode_lt _
  rw [Nat.mod_eq_of_lt hlt]
  exact hfound.used

/-- The table holds an inode in use with these blocks. The caller's copy may
differ from the stored one otherwise. -/
structure Stores (super : Super) (d : Disk) (index : Nat) (inode : Inode) : Prop where
  lt : index < maxInodes
  held : super.heldBy d index = inode.blocks
  used : inode.used % 2 ^ 32 ≠ 0

lemma Found.stores (hfound : L.Found d index inode) : L.Stores d index inode :=
  ⟨hfound.lt, hfound.heldBy, hfound.used_mod⟩

lemma Owned.inside_of_mem (howned : L.Owned d) {block : Nat}
    (hblock : block ∈ L.heldBy d index) : L.InData block ∧ L.bitAt d block = true := by
  obtain ⟨hdata, hmark⟩ := howned.inside index block hblock
  rw [L.ledger_marked_iff d hdata.2] at hmark
  exact ⟨hdata, hmark⟩

lemma Owned.holds (howned : L.Owned d) (hstores : L.Stores d index inode) : L.Holds d inode := by
  have hnodup : (L.heldBy d index).Nodup := howned.nodup index
  rw [hstores.held] at hnodup
  refine ⟨hnodup, fun block hblock => ?_⟩
  rw [← hstores.held] at hblock
  exact howned.inside_of_mem hblock

lemma Found.of_same (hfound : L.Found d index inode)
    (hsame : L.inodeAt d' index = L.inodeAt d index) : L.Found d' index inode :=
  ⟨hfound.lt, hfound.stored.trans hsame.symm, hfound.used⟩

/-- A found inode is not a free one. -/
lemma Found.ne_unused (hfound : L.Found d index inode) {other : Nat}
    (hunused : (L.inodeAt d other).used = 0) : index ≠ other := by
  rintro rfl
  exact hfound.used (hfound.stored ▸ hunused)

end Super

namespace Layout

variable {L : Layout} {d d₁ d₂ d' : Disk}
  {inode inode' : Inode} {index : Nat} {lost taken gained : List Nat}

/-- The disk stays sound and exactly the blocks of `lost` become stray. -/
def Keeps (layout : Layout) (d d' : Disk) (lost : List Nat) : Prop :=
  (layout.ledger d).Keeps layout.InData (layout.ledger d') lost

lemma keeps_refl (howned : L.Owned d) : L.Keeps d d [] := Ledger.Keeps.refl howned

lemma Keeps.owned (hkeeps : L.Keeps d d' lost) : L.Owned d' := hkeeps.sound

lemma Keeps.trans {first second : List Nat} (hfirst : L.Keeps d d₁ first)
    (hsnd : L.Keeps d₁ d' second) : L.Keeps d d' (first ++ second) :=
  Ledger.Keeps.trans hfirst hsnd

/-- Followed by a step that loses nothing. -/
lemma Keeps.trans_nil (hfirst : L.Keeps d d₁ lost) (hsnd : L.Keeps d₁ d' []) :
    L.Keeps d d' lost := by
  have htrans := hfirst.trans hsnd
  rwa [append_nil] at htrans

lemma SameMeta.keeps (hsame : L.SameMeta d d') (howned : L.Owned d) : L.Keeps d d' [] := by
  unfold Keeps
  rw [hsame.ledger]
  exact Ledger.Keeps.refl howned

/-! ## Effects on the ledger -/

variable (htakes : L.Takes d d' taken)

include htakes

lemma Takes.marked_iff (block : Nat) : (L.ledger d').marked block = true ↔
      (L.ledger d).marked block = true ∨ block ∈ taken := by
  by_cases hblock : block < L.totalBlocks
  · rw [L.ledger_marked_iff d' hblock, L.ledger_marked_iff d hblock, htakes.bits block hblock]
    simp
  · have hnot : block ∉ taken := fun hmem => hblock (htakes.free block hmem).1.2
    simp [Super.ledger, hblock, hnot]

lemma Takes.fresh : ∀ block ∈ taken, L.InData block ∧ (L.ledger d).marked block = false := by
  intro block hblock
  obtain ⟨hdata, hclear⟩ := htakes.free block hblock
  exact ⟨hdata, (L.ledger_marked_iff d hdata.2).trans hclear⟩

lemma Takes.heldBy : L.heldBy d' = L.heldBy d := by
  funext index
  unfold Super.heldBy
  split
  next hindex => rw [htakes.inodes index hindex]
  · rfl

omit htakes

variable (hwrites : L.Writes d d' index inode)

include hwrites

lemma Writes.heldBy_self (hindex : index < maxInodes) : L.heldBy d' index = inode.wrapped.held := by
  rw [Super.heldBy, if_pos hindex, hwrites.self]

lemma Writes.heldBy_other {other : Nat}
    (hne : other ≠ index) : L.heldBy d' other = L.heldBy d other := by
  unfold Super.heldBy
  split
  next hother => rw [hwrites.others other hother hne]
  · rfl

lemma Writes.marked (block : Nat) : (L.ledger d').marked block = (L.ledger d).marked block := by
  by_cases hblock : block < L.totalBlocks
  · rw [L.ledger_marked_iff d' hblock, L.ledger_marked_iff d hblock, hwrites.bits block hblock]
  · simp [Super.ledger, hblock]

omit hwrites

/-- Taken blocks that no inode gets are lost. -/
lemma Takes.keeps (htakes : L.Takes d d' lost) (howned : L.Owned d) : L.Keeps d d' lost := by
  have hgains : (L.ledger d).Gains L.InData (L.ledger d') 0 [] lost := by
    refine ⟨nodup_nil, by simp, htakes.fresh, ?_, ?_, htakes.marked_iff⟩
    · rw [append_nil]
      exact .of_eq (congrFun htakes.heldBy 0)
    · intro other _
      exact congrFun htakes.heldBy other
  exact hgains.keeps howned

/-- Blocks are taken and then stored in an inode. -/
lemma Writes.keeps (hwrites : L.Writes d₁ d' index inode) (hindex : index < maxInodes)
    (htakes : L.Takes d d₁ (gained ++ lost)) (howned : L.Owned d)
    (hheld : inode.wrapped.held.Perm (L.heldBy d index ++ gained)) :
    L.Keeps d d' lost := by
  have hgains : (L.ledger d).Gains L.InData (L.ledger d') index gained lost := by
    refine ⟨List.Nodup.of_append_left htakes.nodup, disjoint_of_nodup_append htakes.nodup,
      htakes.fresh, ?_, ?_, ?_⟩
    · change (L.heldBy d' index).Perm _
      rw [hwrites.heldBy_self hindex]
      exact hheld
    · intro other hne
      exact (hwrites.heldBy_other hne).trans (congrFun htakes.heldBy other)
    · intro block
      rw [hwrites.marked block, htakes.marked_iff block]
  exact hgains.keeps howned

lemma SameMeta.writes (hsame : L.SameMeta d d₁) (hwrites : L.Writes d₁ d' index inode) :
    L.Writes d d' index inode where
  self := hwrites.self
  others other hother hne := (hwrites.others other hother hne).trans (hsame.inodes other hother)
  bits block hblock := (hwrites.bits block hblock).trans (hsame.bits block hblock)

/-- An inode of the table gains blocks, and is stored with another header. -/
lemma held_of_gain (howned : L.Owned d) (hstores : L.Stores d index inode)
    (htakes : L.Takes d d₁ (gained ++ lost))
    (hblocks : inode'.blocks.Perm (inode.blocks ++ gained)) (hused : inode'.used = inode.used) :
    inode'.wrapped.held.Perm (L.heldBy d index ++ gained) := by
  have hholds := (howned.holds hstores).gain htakes hblocks
  rw [hholds.bounded.held_wrapped (hused ▸ hstores.used), hstores.held]
  exact hblocks

include hwrites in
/-- An inode is stored again with the blocks it has. -/
lemma Writes.keeps_same (hindex : index < maxInodes)
    (howned : L.Owned d) (hheld : inode.wrapped.held.Perm (L.heldBy d index)) :
    L.Keeps d d' [] := by
  have htakes : L.Takes d d ([] ++ []) := takes_refl L d
  exact hwrites.keeps hindex htakes howned (by rwa [append_nil])

lemma exec_freeAllExtents (hbound : inode.Bounded L.totalBlocks) (d : Disk) :
    ∃ d', (freeAllExtents L.toSuper inode).exec serve d = (some (), d') ∧ L.Marks d d' fun block =>
        if block ∈ inode.blocks then false else L.bitAt d block :=
  exec_freeExtents (fun _ hext hlen => hbound.extent_end hext hlen) d

/-- Blocks are taken, those of an inode are freed together with some of them,
and an inode without blocks is stored. -/
lemma Marks.keeps {blocks : List Nat} (hmarks : L.Marks d₁ d₂ fun block =>
      if block ∈ blocks then false else L.bitAt d₁ block)
    (hwrites : L.Writes d₂ d' index inode) (hindex : index < maxInodes)
    (htakes : L.Takes d d₁ (gained ++ lost)) (howned : L.Owned d)
    (hblocks : blocks.Perm (L.heldBy d index ++ gained)) (hheld : inode.wrapped.held = []) :
    L.Keeps d d' lost := by
  have hapart := disjoint_of_nodup_append htakes.nodup
  have hdrops : (L.ledger d).Drops L.InData (L.ledger d') index lost := by
    refine ⟨fun block h => htakes.fresh block (mem_append_right gained h), ?_, ?_, ?_⟩
    · exact (hwrites.heldBy_self hindex).trans hheld
    · intro other hne
      change L.heldBy d' other = L.heldBy d other
      rw [hwrites.heldBy_other hne, ← htakes.heldBy]
      unfold Super.heldBy
      split
      next hother => rw [hmarks.inodes hother]
      · rfl
    intro block
    by_cases hblock : block < L.totalBlocks
    · rw [hwrites.marked block, L.ledger_marked_iff d₂ hblock, hmarks.bits block hblock]
      have hmem := hblocks.mem_iff (a := block)
      rw [mem_append] at hmem
      have hmark := htakes.marked_iff block
      rw [L.ledger_marked_iff d₁ hblock, mem_append] at hmark
      split
      next hin =>
        simp only [Bool.false_eq_true, false_iff, not_or, not_and, not_not]
        rcases hmem.mp hin with hheld | hgain
        · refine ⟨fun _ => hheld, fun hlost => ?_⟩
          have hclear := (htakes.fresh block (mem_append_right gained hlost)).2
          exact howned.not_mem_of_unmarked hclear index hheld
        · refine ⟨fun hset => ?_, hapart hgain⟩
          rw [(htakes.fresh block (mem_append_left lost hgain)).2] at hset
          cases hset
      next hout =>
        rw [hmem, not_or] at hout
        rw [hmark]
        constructor
        · rintro (hset | hgain | hlost)
          · exact .inl ⟨hset, hout.1⟩
          · exact absurd hgain hout.2
          · exact .inr hlost
        · rintro (⟨hset, -⟩ | hlost)
          · exact .inl hset
          · exact .inr (.inr hlost)
    · have hnot : block ∉ lost := fun hmem =>
        hblock (htakes.free block (mem_append_right gained hmem)).1.2
      simp [Super.ledger, hblock, hnot]
  exact hdrops.keeps howned

/-! ## Outcomes -/

/-- The disk stays sound. Up to `2 ^ 31` blocks, blocks are lost exactly when
the condition on the disk before holds. -/
def Leaves (layout : Layout) (strands : Prop) (d d' : Disk) : Prop :=
  ∃ lost, layout.Keeps d d' lost ∧ (layout.IntSized → (lost ≠ [] ↔ strands))

lemma Keeps.leaves_nil {strands : Prop} (hkeeps : L.Keeps d d' []) (hnot : ¬strands) :
    L.Leaves strands d d' :=
  ⟨[], hkeeps, fun _ => iff_of_false (fun h => h rfl) hnot⟩

/-! ## Writing and truncating -/

/-- Writing a data block of a file leaves the metadata. It stops only at a block
number that is negative as an `int`. -/
lemma ends_writeChunk (hwithin : L.Within inode) (off stop : Nat)
    (data : List UInt8) {blockIndex : Nat} (done : Nat) (hlt : blockIndex < inode.blocks.length)
    (d : Disk) :
    (writeChunk inode off stop data blockIndex done).Ends serve d
      fun r d' => L.SameMeta d d' ∧ (r = none → ¬L.IntSized) := by
  refine bind (ends_readInodeBlock hwithin hlt d) ?_ ?_
  · rintro d' ⟨rfl, hbig⟩
    exact ⟨L.sameMeta_refl d', fun _ => hbig rfl⟩
  rintro block d' ⟨rfl, -⟩
  generalize writeWindow off stop blockIndex = window
  rcases window with _ | window
  · exact ⟨L.sameMeta_refl d', nofun⟩
  refine bind (ends_writeInodeBlock hwithin blockIndex _ d') ?_ ?_
  · rintro d'' (⟨-, rfl, hlen⟩ | ⟨hbad, -⟩)
    · refine ⟨L.sameMeta_refl d'', fun _ hsmall => ?_⟩
      have hle := hlen hsmall
      omega
    · cases hbad
  · rintro value d'' (⟨hbad, -⟩ | ⟨-, physical, hmem, -, rfl⟩)
    · cases hbad
    · exact ⟨L.sameMeta_write d' (hwithin.inside physical hmem) _, nofun⟩

lemma ends_writeRangeLoop (hwithin : L.Within inode) (off stop : Nat)
    (data : List UInt8) {count blockIndex : Nat} (done : Nat)
    (hcount : blockIndex + count = inode.blocks.length) (d : Disk) :
    (writeRangeLoop inode off stop data count blockIndex done).Ends serve d
      fun r d' => L.SameMeta d d' ∧ (r = none → ¬L.IntSized) := by
  induction count generalizing blockIndex done d with
  | zero => exact ⟨L.sameMeta_refl d, nofun⟩
  | succ count ih =>
    unfold writeRangeLoop
    split
    next hmore =>
      refine bind (ends_writeChunk hwithin off stop data done (by omega) d) ?_ ?_
      · exact fun d' h => h
      · rintro done' d' ⟨hsame, -⟩
        refine (ih done' (by omega) d').mono fun r d'' h => ?_
        exact ⟨hsame.trans h.1, h.2⟩
    · exact ⟨L.sameMeta_refl d, nofun⟩

/-- The blocks that a file needs for a write. -/
def writeBlocks (offset : Nat) (data : List UInt8) : Nat :=
  ((offset + data.length) % wordLimit + blockSize - 1) % wordLimit / blockSize

/-- A write that gets as far as growing the file strands blocks. -/
def WriteStrands (layout : Layout) (d : Disk) (inode : Inode) (offset : Nat)
    (data : List UInt8) : Prop :=
  inode.type = typeFile ∧ data ≠ [] ∧ offset ≤ (offset + data.length) % wordLimit ∧
    layout.Strands (layout.bitAt d) inode (writeBlocks offset data)

instance (layout : Layout) (d : Disk) (inode : Inode) (offset : Nat) (data : List UInt8) :
    Decidable (layout.WriteStrands d inode offset data) :=
  inferInstanceAs (Decidable (_ ∧ _ ∧ _ ∧ _))

lemma ends_writeFileRange (howned : L.Owned d) (hfound : L.Found d index inode)
    (off : Nat) (data : List UInt8) :
    (writeFileRange L.toSuper index inode off data).Ends serve d fun _ d' =>
      L.Leaves (L.WriteStrands d inode off data) d d' := by
  have hholds := howned.holds hfound.stores
  have hnop : ¬L.WriteStrands d inode off data →
      L.Leaves (L.WriteStrands d inode off data) d d :=
    (keeps_refl howned).leaves_nil
  unfold writeFileRange
  split
  next htype => exact hnop fun h => htype h.1
  next htype =>
    rw [not_not] at htype
    split
    next hempty => exact hnop fun h => h.2.1 (isEmpty_iff.mp hempty)
    next hdata =>
      dsimp only
      split
      next hover => exact hnop fun h => absurd h.2.2.1 (Nat.not_le_of_lt hover)
      next hfits =>
        have hreached : ∀ {strands : Prop},
            strands = L.Strands (L.bitAt d) inode (writeBlocks off data) →
            (strands ↔ L.WriteStrands d inode off data) := by
          rintro _ rfl
          refine ⟨fun h => ⟨htype, ?_, Nat.le_of_not_lt hfits, h⟩, fun h => h.2.2.2⟩
          exact fun hnil => hdata (isEmpty_iff.mpr hnil)
        refine bind_attempt (ends_ensureBlocks hholds _) fun grown d₁ hgrows => ?_
        cases hgrows with
        | failed htakes hexact =>
          refine ⟨_, htakes.keeps howned, fun hsmall => ?_⟩
          rw [hexact hsmall]
          exact hreached rfl
        | @done gained lost inode' _ hhdr hblocks _ htakes _ hexact =>
          have hholds' := hholds.gain htakes hblocks
          refine bind_attempt (ends_writeRangeLoop hholds'.within off _ data 0
            (by rw [Nat.zero_add, hholds'.bounded.blockCount]) d₁) ?_
          rintro written d₂ ⟨hsame, hstuck⟩
          cases written with
          | none =>
            refine ⟨_, (htakes.keeps howned).trans_nil
              (hsame.keeps (htakes.keeps howned).owned), fun hsmall => ?_⟩
            exact absurd hsmall (hstuck rfl)
          | some done =>
            obtain ⟨d₃, hexec, hputs⟩ := exec_writeInode L hfound.lt
              (inode'.withSizeAtLeast ((off + data.length) % wordLimit)) d₂
            refine bind_of_some (exec_attempt _ _ d₂) ?_
            rw [hexec]
            have hheld : (inode'.withSizeAtLeast
                ((off + data.length) % wordLimit)).wrapped.held.Perm _ :=
              held_of_gain howned hfound.stores htakes hblocks hhdr.used
            refine ⟨lost, (hsame.writes hputs.toWrites).keeps hfound.lt htakes howned hheld,
              fun hsmall => ?_⟩
            obtain ⟨rfl, hnot⟩ := hexact hsmall
            exact iff_of_false (fun h => h rfl) fun h => hnot h.2.2.2

lemma blocks_zero : Inode.zero.blocks = [] := by decide

lemma held_wrapped_truncated (inode : Inode) : inode.truncated.wrapped.held = [] := by
  have hblocks : inode.truncated.wrapped.blocks = [] := blocks_zero
  rw [Inode.held, hblocks, ite_self]

lemma held_wrapped_zero : Inode.zero.wrapped.held = [] := by decide

/-- A found inode is freed and an inode without blocks is stored in its place. -/
lemma exec_free_write (howned : L.Owned d) (hstores : L.Stores d index inode)
    (hheld : inode'.wrapped.held = []) :
    ∃ d₁ d', (freeAllExtents L.toSuper inode).exec serve d = (some (), d₁) ∧
      (writeInode L.toSuper index inode').exec serve d₁ = (some (), d') ∧
      L.Marks d d₁ (fun block =>
        if block ∈ inode.blocks then false else L.bitAt d block) ∧
      L.Puts d₁ d' index inode' ∧ L.Keeps d d' [] := by
  have hholds := howned.holds hstores
  obtain ⟨d₁, hfree, hmarks⟩ := exec_freeAllExtents hholds.bounded d
  obtain ⟨d', hwrite, hputs⟩ := exec_writeInode L hstores.lt inode' d₁
  have htakes : L.Takes d d ([] ++ []) := takes_refl L d
  refine ⟨d₁, d', hfree, hwrite, hmarks, hputs, ?_⟩
  refine hmarks.keeps hputs.toWrites hstores.lt htakes howned ?_ hheld
  rw [append_nil, hstores.held]

lemma ends_truncateInode (howned : L.Owned d) (hfound : L.Found d index inode) :
    (truncateInode L.toSuper index inode).Ends serve d fun _ d' =>
      L.Leaves False d d' := by
  unfold truncateInode
  split
  · exact (keeps_refl howned).leaves_nil id
  · obtain ⟨d₁, d', hfree, hwrite, -, -, hkeeps⟩ :=
      exec_free_write howned hfound.stores (held_wrapped_truncated inode)
    refine bind_of_some (exec_attempt _ _ d) ?_
    rw [hfree]
    refine bind_of_some (exec_attempt _ _ d₁) ?_
    rw [hwrite]
    exact hkeeps.leaves_nil id

/-! ## Removing -/

include hwrites in
/-- An inode is stored whose blocks are those that it held. -/
lemma Writes.stores (hindex : index < maxInodes)
    (hbound : inode.Bounded L.totalBlocks) (hused : inode.used % 2 ^ 32 ≠ 0) :
    L.Stores d' index inode where
  lt := hindex
  held := (hwrites.heldBy_self hindex).trans (hbound.held_wrapped hused)
  used := hused

/-- An entry is removed from a directory that the table stores. -/
lemma ends_dirRemoveEntry_keeps (howned : L.Owned d) {dir : Inode}
    (hstores : L.Stores d index dir) (name : List UInt8) :
    (dirRemoveEntry L.toSuper index dir name).Ends serve d fun r d' =>
      L.Keeps d d' [] ∧ ∀ dir', r = some dir' →
        dir' = dir.withDirSize ∧ L.Stores d' index dir.withDirSize := by
  have hholds := howned.holds hstores
  refine (ends_dirRemoveEntry hstores.lt hholds.within name d).mono ?_
  rintro r d' (⟨rfl, rfl, -⟩ | ⟨rfl, hputs, -⟩)
  · exact ⟨keeps_refl howned, nofun⟩
  have hafter := hputs.toWrites.stores hstores.lt (hholds.bounded.congr rfl) hstores.used
  refine ⟨hputs.toWrites.keeps_same hstores.lt howned (.of_eq ?_), ?_⟩
  · rw [← hputs.toWrites.heldBy_self hstores.lt, hafter.held, hstores.held]
    rfl
  · intro dir' hdir'
    cases hdir'
    exact ⟨rfl, hafter⟩

/-- A stored inode is stored once more with the same blocks. -/
lemma Writes.keeps_stored (hwrites : L.Writes d d' index inode') (howned : L.Owned d)
    (hstores : L.Stores d index inode) (hblocks : inode'.blocks = inode.blocks)
    (hused : inode'.used = inode.used) : L.Keeps d d' [] := by
  have hbound := (howned.holds hstores).bounded.congr hblocks
  refine hwrites.keeps_same hstores.lt howned (.of_eq ?_)
  rw [hbound.held_wrapped (hused ▸ hstores.used), hstores.held, hblocks]

lemma ends_unlinkPath (howned : L.Owned d) (path : List UInt8) :
    (unlinkPath L.toSuper path).Ends serve d fun _ d' => L.Leaves False d d' := by
  have hnop : L.Leaves False d d := (keeps_refl howned).leaves_nil id
  refine bind (ends_resolveParentDir L.toSuper path d) ?_ ?_
  · rintro d' ⟨rfl, -⟩
    exact hnop
  rintro ⟨parentIndex, parent, name⟩ d' ⟨rfl, hpar⟩
  obtain ⟨hpar, hdir⟩ := hpar _ rfl
  refine bind (ends_lookupPath L.toSuper path d') ?_ ?_
  · rintro d'' ⟨rfl, -⟩
    exact hnop
  rintro ⟨index, inode⟩ d'' ⟨rfl, hfound⟩
  have hfound := hfound _ rfl
  refine ends_require_bind (fun _ => hnop) fun hfile => ?_
  obtain ⟨d₁, d₂, hfree, hwrite, hmarks, hputs, hkeeps⟩ :=
    exec_free_write howned hfound.stores held_wrapped_zero
  refine bind_of_some hfree (bind_of_some hwrite ?_)
  -- A directory is no file, so the parent is another inode.
  have hne : parentIndex ≠ index := by
    rintro rfl
    rw [hpar.stored, ← hfound.stored, hfile] at hdir
    cases hdir
  have hpar' : L.Found d₂ parentIndex parent := hpar.of_same
    ((hputs.others parentIndex hpar.lt hne).trans (hmarks.inodes hpar.lt))
  refine bind (ends_dirRemoveEntry_keeps hkeeps.owned hpar'.stores name) ?_ ?_
  · exact fun d' h => (hkeeps.trans_nil h.1).leaves_nil id
  · exact fun _ d' h => (hkeeps.trans_nil h.1).leaves_nil id

/-- Removing a directory would remove the one that its own entry is in: the path
leads through a directory to an entry that names that directory itself. -/
def RemovesParent (layout : Layout) (d : Disk) (path : List UInt8) : Prop :=
  ∃ index parent name dir,
    ((resolveParentDir layout.toSuper path).exec serve d).1 = some (index, parent, name) ∧
    ((lookupPath layout.toSuper path).exec serve d).1 = some (index, dir) ∧
    index ≠ rootInode ∧ ((dirIsEmpty dir).exec serve d).1 = some true ∧
    ((dirLookupEntry parent name).exec serve d).1 ≠ none

/-- Freeing an inode leaves the blocks of a directory as they are. -/
lemma exec_dirLookupEntry_free {dir : Inode} {bits : Nat → Bool}
    (hmarks : L.Marks d d₁ bits) (hputs : L.Puts d₁ d' index inode)
    (hwithin : L.Within dir) (name : List UInt8) :
    ((dirLookupEntry dir name).exec serve d').1 = ((dirLookupEntry dir name).exec serve d).1 := by
  refine exec_findDirEntrySlot_congr hwithin (fun block hblock => ?_) (some name)
  have hdata := hwithin.inside block hblock
  rw [hputs.data block hdata.1 (InData.small hdata), hmarks.data block hdata.1 (InData.small hdata)]

lemma ends_rmdirPath (howned : L.Owned d) (path : List UInt8) (hapart : ¬L.RemovesParent d path) :
    (rmdirPath L.toSuper path).Ends serve d fun _ d' => L.Leaves False d d' := by
  have hnop : L.Leaves False d d := (keeps_refl howned).leaves_nil id
  refine bind ((ends_resolveParentDir L.toSuper path d).and (ends_exec _ d)) ?_ ?_
  · rintro d' ⟨⟨rfl, -⟩, -⟩
    exact hnop
  rintro ⟨parentIndex, parent, name⟩ d' ⟨⟨rfl, hpar⟩, hresolve⟩
  obtain ⟨hpar, -⟩ := hpar _ rfl
  refine bind ((ends_lookupPath L.toSuper path d').and (ends_exec _ d')) ?_ ?_
  · rintro d'' ⟨⟨rfl, -⟩, -⟩
    exact hnop
  rintro ⟨index, dir⟩ d'' ⟨⟨rfl, hfound⟩, hlook⟩
  have hfound := hfound _ rfl
  refine ends_require_bind (fun _ => hnop) fun hdir => ?_
  refine bind ((readOnly_dirIsEmpty dir).ends d'') ?_ ?_
  · rintro d' ⟨rfl, -⟩
    exact hnop
  rintro empty d' ⟨rfl, hempty⟩
  refine ends_require_bind (fun _ => hnop) fun htrue => ?_
  subst htrue
  obtain ⟨d₁, d₂, hfree, hwrite, hmarks, hputs, hkeeps⟩ :=
    exec_free_write howned hfound.stores held_wrapped_zero
  refine bind_of_some hfree (bind_of_some hwrite ?_)
  have hholds := howned.holds hpar.stores
  by_cases hne : parentIndex = index
  · subst hne
    -- The directory is its own parent, so it has no entry of that name to remove.
    refine bind (ends_dirRemoveEntry hpar.lt hholds.within name d₂) ?_ ?_
    · rintro d₃ (⟨-, rfl, -⟩ | ⟨hbad, -⟩)
      · exact hkeeps.leaves_nil id
      · cases hbad
    · rintro parent' d₃ (⟨hbad, -⟩ | ⟨-, -, hentry⟩)
      · cases hbad
      rw [exec_dirLookupEntry_free hmarks hputs hholds.within name] at hentry
      refine absurd ⟨parentIndex, parent, name, dir, ?_, ?_, hdir.2, ?_, hentry⟩ hapart
      · exact congrArg Prod.fst hresolve
      · exact congrArg Prod.fst hlook
      · exact congrArg Prod.fst hempty
  · have hpar' : L.Found d₂ parentIndex parent := hpar.of_same
      ((hputs.others parentIndex hpar.lt hne).trans (hmarks.inodes hpar.lt))
    refine bind (ends_dirRemoveEntry_keeps hkeeps.owned hpar'.stores name) ?_ ?_
    · exact fun d' h => (hkeeps.trans_nil h.1).leaves_nil id
    rintro parent' d₃ ⟨hrem, hsame⟩
    obtain ⟨rfl, hstores⟩ := hsame parent' rfl
    obtain ⟨d₄, hexec, hputs'⟩ := exec_writeInode L hpar.lt
      { parent.withDirSize with nlink := parent.withDirSize.nlink - 1 } d₃
    refine of_exec hexec (((hkeeps.trans_nil hrem).trans_nil ?_).leaves_nil id)
    exact hputs'.toWrites.keeps_stored hrem.owned hstores rfl rfl

end Layout

end NexOS.Nxfs
