import NexOS.Nxfs.Ownership

/-! # Creating files and directories

A new path gets a free inode and an entry in its directory. When the entry
cannot be made, the inode is freed again, but blocks that the parent directory
took while it grew stay marked.
-/

namespace NexOS.Nxfs

open Program.Ends Disk Program

namespace Layout

variable {L : Layout} {d d₁ d₂ d' : Disk} {lost : List Nat} {index : Nat} {dir : Inode}

/-- What an operation leaves is what its last part leaves, if the first part
loses nothing. -/
lemma Leaves.after {strands strands' : Prop} (hkeeps : L.Keeps d d₁ lost)
    (hnone : L.IntSized → lost = []) (hleaves : L.Leaves strands d₁ d')
    (hiff : L.IntSized → (strands ↔ strands')) : L.Leaves strands' d d' := by
  obtain ⟨more, hmore, hexact⟩ := hleaves
  refine ⟨lost ++ more, hkeeps.trans hmore, fun hsmall => ?_⟩
  rw [hnone hsmall, List.nil_append, hexact hsmall, hiff hsmall]

/-- A stored directory gets an entry, and may gain blocks for it. -/
lemma keeps_of_added {dir' : Inode} {gained : List Nat}
    (howned : L.Owned d) (hstores : L.Stores d index dir)
    (hhdr : dir.SameHeader dir') (hblocks : dir'.blocks.Perm (dir.blocks ++ gained))
    (htakes : L.Takes d d₁ (gained ++ lost)) (hputs : L.PutsEntry d₁ d' index dir') :
    L.Keeps d d' lost ∧ L.Stores d' index dir'.withDirSize := by
  have hholds := (howned.holds hstores).gain htakes hblocks
  have hheld : dir'.withDirSize.wrapped.held.Perm (L.heldBy d index ++ gained) :=
    held_of_gain howned hstores htakes hblocks hhdr.used
  constructor
  · exact hputs.toWrites.keeps hstores.lt htakes howned hheld
  refine hputs.toWrites.stores hstores.lt (hholds.bounded.congr rfl) ?_
  have hused : dir'.withDirSize.used = dir.used := hhdr.used
  rw [hused]
  exact hstores.used

/-! ## Files -/

/-- The path is new, there is a free inode for it, and these are its directory
and its name. -/
def Creates (layout : Layout) (d : Disk) (path : List UInt8) (parent : Inode)
    (name : List UInt8) : Prop :=
  path ≠ [] ∧ ∃ parentPath parentIndex index, splitParentChildPath path = some (parentPath, name) ∧
    ((prepareCreate layout.toSuper path parentPath).exec serve d).1 =
      some (parentIndex, parent, index)

/-- The creation leaves blocks without an owner. -/
def CreateStrands (layout : Layout) (d : Disk) (path : List UInt8) : Prop :=
  ∃ parent name, layout.Creates d path parent name ∧
    layout.EntryStrands d (layout.bitAt d) parent name

lemma held_wrapped_newFile : newFile.wrapped.held = [] := by decide

lemma ends_createPath (howned : L.Owned d) (path : List UInt8) :
    (createPath L.toSuper path).Ends serve d fun _ d' =>
      L.Leaves (L.CreateStrands d path) d d' := by
  have hnop : ¬L.CreateStrands d path →
      L.Leaves (L.CreateStrands d path) d d := (keeps_refl howned).leaves_nil
  refine ends_require_bind (fun hpath => hnop ?_) fun hpath => ?_
  · rintro ⟨parent, name, ⟨hne, -⟩, -⟩
    exact hpath hne
  refine ends_ofOption_bind (fun hsplit => hnop ?_) fun parts hsplit => ?_
  · rintro ⟨parent, name, ⟨-, parentPath, parentIndex, index, hsome, -⟩, -⟩
    rw [hsplit] at hsome
    cases hsome
  obtain ⟨parentPath, name⟩ := parts
  refine ends_require_bind (fun hlong => hnop ?_) fun hshort => ?_
  · rintro ⟨parent, name', ⟨-, parentPath', parentIndex, index, hsome, -⟩, hname, -⟩
    cases hsplit.symm.trans hsome
    exact hname (.inr (Nat.le_of_not_lt hlong))
  refine bind ((ends_prepareCreate L.toSuper path parentPath d).and (ends_exec _ d)) ?_ ?_
  · rintro d' ⟨⟨rfl, -⟩, hexec⟩
    refine hnop ?_
    rintro ⟨parent, name', ⟨-, parentPath', parentIndex, index, hsome, hprep⟩, -⟩
    cases hsplit.symm.trans hsome
    rw [hexec] at hprep
    cases hprep
  rintro ⟨parentIndex, parent, index⟩ d' ⟨⟨rfl, hfound⟩, hexec⟩
  obtain ⟨hpar, hindex, hunused⟩ := hfound _ rfl
  obtain ⟨d₁, hwrite, hputs⟩ := exec_writeInode L hindex newFile d'
  refine bind_of_some hwrite ?_
  have hkeeps : L.Keeps d' d₁ [] := by
    refine hputs.toWrites.keeps_same hindex howned (.of_eq ?_)
    rw [held_wrapped_newFile, Super.heldBy_of_unused hunused]
  have hpar' : L.Found d₁ parentIndex parent :=
    hpar.of_same (hputs.others parentIndex hpar.lt (hpar.ne_unused hunused))
  have hholds := hkeeps.owned.holds hpar'.stores
  have hstrand : L.EntryStrands d₁ (L.bitAt d₁) parent name ↔ L.CreateStrands d' path := by
    rw [entryStrands_congr hholds.within (fun block hblock => hputs.data block
      (hholds.inside block hblock).1.1 (InData.small (hholds.inside block hblock).1))
      hputs.bits name]
    constructor
    · exact fun h => ⟨parent, name, ⟨hpath, parentPath, parentIndex, index, hsplit,
        congrArg Prod.fst hexec⟩, h⟩
    · rintro ⟨parent', name', ⟨-, parentPath', parentIndex', index', hsome, hprep⟩, h⟩
      cases hsplit.symm.trans hsome
      rw [hexec] at hprep
      cases hprep
      exact h
  refine mono ?_ fun _ d'' hleaves =>
    Leaves.after hkeeps (fun _ => rfl) hleaves fun _ => hstrand
  refine bind (ends_dirAddEntry hpar.lt hholds name index)
    (fun d'' h => by cases h) fun outcome d₂ hadds => ?_
  cases hadds with
  | @refused gained lost _ _ _ _ htakes hexact =>
    obtain ⟨d₃, hexec', hputs'⟩ := exec_writeInode L hindex Inode.zero d₂
    refine bind_of_some (exec_attempt _ _ d₂) ?_
    rw [hexec']
    have hall : L.Takes d₁ d₂ ([] ++ (gained ++ lost)) := htakes
    refine ⟨gained ++ lost, hputs'.toWrites.keeps hindex hall hkeeps.owned ?_, fun hsmall => ?_⟩
    · rw [hputs.toWrites.heldBy_self hindex]
      rfl
    · rw [(hexact hsmall).1]
      exact (hexact hsmall).2
  | @added _ lost _ _ _ hhdr hblocks htakes hputs' hexact =>
    have hadded := keeps_of_added hkeeps.owned hpar'.stores hhdr hblocks htakes hputs'
    refine ⟨lost, hadded.1, fun hsmall => ?_⟩
    obtain ⟨rfl, hnot⟩ := hexact hsmall
    exact iff_of_false (fun h => h rfl) hnot

/-! ## Directories -/

/-- Undoing a directory frees what it holds and what it has gained since. -/
lemma ends_abandonDir (howned : L.Owned d) {gained : List Nat} (hindex : index < maxInodes)
    (htakes : L.Takes d d₁ (gained ++ lost))
    (hblocks : dir.blocks.Perm (L.heldBy d index ++ gained))
    (hbound : dir.Bounded L.totalBlocks) :
    (abandonDir L.toSuper index dir).Ends serve d₁ fun _ d' =>
      L.Keeps d d' lost := by
  obtain ⟨d₂, hfree, hmarks⟩ := exec_freeAllExtents hbound d₁
  obtain ⟨d', hwrite, hputs⟩ := exec_writeInode L hindex Inode.zero d₂
  refine bind_of_some (exec_attempt _ _ d₁) ?_
  rw [hfree]
  refine bind_of_some (exec_attempt _ _ d₂) ?_
  rw [hwrite]
  exact hmarks.keeps hputs.toWrites hindex htakes howned hblocks held_wrapped_zero

/-- Up to `2 ^ 31` blocks, the directory has one block, with room for the name. -/
def HasRoom (layout : Layout) (d : Disk) (dir : Inode) (name : List UInt8) : Prop :=
  layout.IntSized → ∃ start slot, dir.blocks = [start] ∧
    (d (UInt32.ofNat start)).findSlot (some name) = none ∧
    (d (UInt32.ofNat start)).findSlot none = some slot

/-- A new directory got an entry; its parent is as before. -/
structure OwnEntry (layout : Layout) (d d' : Disk) (index : Nat) (dir dir' : Inode)
    (parentIndex : Nat) (parent : Inode) (child : Nat) (name : List UInt8) : Prop where
  keeps : ∃ lost, layout.Keeps d d' lost ∧ (layout.IntSized → lost = [])
  stores : layout.Stores d' index dir'
  found : layout.Found d' parentIndex parent
  strands : layout.IntSized → ∀ other, layout.EntryStrands d' (layout.bitAt d') parent other ↔
    layout.EntryStrands d (layout.bitAt d) parent other
  entry : layout.IntSized → ∀ start slot, dir.blocks = [start] →
    (d (UInt32.ofNat start)).findSlot none = some slot → dir'.blocks = [start] ∧
      d' (UInt32.ofNat start) = (d (UInt32.ofNat start)).setEntry slot child name

/-- Blocks of two stored inodes are different ones. -/
lemma not_mem_of_stores {other block : Nat} {dir' : Inode} (howned : L.Owned d)
    (hstores : L.Stores d index dir) (hother : L.Stores d other dir')
    (hne : other ≠ index) (hblock : block ∈ dir'.blocks) : block ∉ dir.blocks := by
  rw [← hstores.held]
  rw [← hother.held] at hblock
  exact fun hmem => howned.disjoint hne hblock hmem

lemma ends_ownEntry (howned : L.Owned d) {parentIndex : Nat} {parent : Inode}
    (hstores : L.Stores d index dir) (hpar : L.Found d parentIndex parent)
    (hne : parentIndex ≠ index) {name : List UInt8}
    (hname : ¬(name.isEmpty ∨ nameSize ≤ name.length)) (hroom : L.HasRoom d dir name)
    (child : Nat) :
    (dirAddEntry L.toSuper index dir name child).Ends serve d fun r d' =>
      (∃ dir' gained lost, r = some (dir', none) ∧ ¬L.IntSized ∧
        dir'.blocks.Perm (dir.blocks ++ gained) ∧ L.Takes d d' (gained ++ lost)) ∨
      ∃ dir', r = some (dir', some ()) ∧
        L.OwnEntry d d' index dir dir' parentIndex parent child name := by
  have hholds := howned.holds hstores
  have hone : L.IntSized → ∃ start slot, dir.blocks = [start] ∧
      (d (UInt32.ofNat start)).findSlot none = some slot ∧
      (dirAddEntry L.toSuper index dir name child).Ends serve d fun r d' =>
        r = some (dir.withDirSize, some ()) ∧
          d' (UInt32.ofNat start) = (d (UInt32.ofNat start)).setEntry slot child name := by
    intro hsmall
    obtain ⟨start, slot, hblocks, hnew, hslot⟩ := hroom hsmall
    exact ⟨start, slot, hblocks, hslot,
      exec_dirAddEntry_one hsmall hstores.lt hholds.within hblocks hname hnew hslot child⟩
  have hends := ends_dirAddEntry hstores.lt hholds name child
  unfold Program.Ends at hone hends ⊢
  generalize ((dirAddEntry L.toSuper index dir name child).exec serve d).1 = r,
    ((dirAddEntry L.toSuper index dir name child).exec serve d).2 = d' at hone hends ⊢
  cases hends with
  | @refused gained lost dir' _ hhdr hblocks htakes hexact =>
    refine .inl ⟨dir', gained, lost, rfl, fun hsmall => ?_, hblocks, htakes⟩
    obtain ⟨start, slot, -, -, hbad, -⟩ := hone hsmall
    cases hbad
  | @added gained lost dir' d₁ _ hhdr hblocks htakes hputs hexact =>
    obtain ⟨hkeeps, hafter⟩ := keeps_of_added howned hstores hhdr hblocks htakes hputs
    have hfound : L.Found d' parentIndex parent := hpar.of_same
      ((hputs.others parentIndex hpar.lt hne).trans (htakes.inodes parentIndex hpar.lt))
    have hwithin := (howned.holds hpar.stores).within
    have hsame : L.IntSized → dir'.blocks = dir.blocks := by
      intro hsmall
      obtain ⟨-, -, -, -, hsame, -⟩ := hone hsmall
      exact congrArg (fun result => result.1.blocks) (Option.some.inj hsame)
    refine .inr ⟨_, rfl, ⟨lost, hkeeps, fun hsmall => (hexact hsmall).1⟩, hafter, hfound, ?_, ?_⟩
    · intro hsmall other
      have hgain : gained = [] := by
        have hlen := hblocks.length_eq
        rw [hsame hsmall, List.length_append] at hlen
        exact List.eq_nil_of_length_eq_zero (by omega)
      rw [hgain, (hexact hsmall).1] at htakes
      refine entryStrands_congr hwithin (fun block hblock => ?_) (fun block hblock => ?_) other
      · have hnot : block ∉ dir'.withDirSize.blocks :=
          not_mem_of_stores hkeeps.owned hafter hfound.stores hne hblock
        rw [hputs.data block (hwithin.inside block hblock) hnot,
          htakes.data block (hwithin.inside block hblock) (List.not_mem_nil)]
      · rw [hputs.bits block hblock, htakes.bits block hblock]
        simp
    · intro hsmall start slot hstart hslot
      obtain ⟨start', slot', hstart', hslot', -, hentry⟩ := hone hsmall
      cases hstart.symm.trans hstart'
      cases hslot.symm.trans hslot'
      exact ⟨(hsame hsmall).trans hstart, hentry⟩

lemma findSlot_zeroBlock : zeroBlock.findSlot (some dot) = none ∧
    zeroBlock.findSlot none = some 0 := by decide +kernel

/-- A block whose only entry is the first one has room for the second. -/
lemma findSlot_first (child : Nat) :
    (zeroBlock.setEntry 0 child dot).findSlot (some dotDot) = none ∧
      (zeroBlock.setEntry 0 child dot).findSlot none = some 1 := by
  have hnames : ∀ slot < dirEntriesPerBlock,
      (zeroBlock.setEntry 0 child dot).entryName slot = if slot = 0 then dot else [] := by
    intro slot hslot
    rw [Block.entryName_setEntry zeroBlock (by decide) hslot (by decide) (by decide)]
    have hempty : ∀ slot < dirEntriesPerBlock, zeroBlock.entryName slot = [] := by decide +kernel
    rw [hempty slot hslot]
  constructor
  · refine List.find?_eq_none.mpr fun slot hslot => ?_
    rw [List.mem_range] at hslot
    dsimp only
    rw [hnames slot hslot]
    split
    · decide
    · decide
  · refine List.find?_range_eq_some.mpr ⟨?_, by decide, fun slot hslot => ?_⟩
    · rw [hnames 1 (by decide)]
      decide
    · obtain rfl : slot = 0 := by omega
      rw [hnames 0 (by decide)]
      decide

/-- Giving a new directory its entries strands what its parent strands. -/
lemma ends_enterDir (howned : L.Owned d) {parentIndex : Nat} {parent : Inode}
    (hstores : L.Stores d index dir) (hpar : L.Found d parentIndex parent)
    (hne : parentIndex ≠ index)
    (hfresh : L.IntSized → ∃ start, dir.blocks = [start] ∧ d (UInt32.ofNat start) = zeroBlock)
    (name : List UInt8) :
    (enterDir L.toSuper index dir parentIndex parent name).Ends serve d fun _ d' =>
      L.Leaves (L.EntryStrands d (L.bitAt d) parent name) d d' := by
  have habandon : ∀ {d d₁ : Disk} {dir dir' : Inode} {gained lost : List Nat} {strands : Prop},
      L.Owned d → L.Stores d index dir → ¬L.IntSized →
      dir'.blocks.Perm (dir.blocks ++ gained) → L.Takes d d₁ (gained ++ lost) →
      (abandonDir L.toSuper index dir').Ends serve d₁ fun _ d' =>
        L.Leaves strands d d' := by
    intro d d₁ dir dir' gained lost strands howned hstores hbig hblocks htakes
    have hbound := ((howned.holds hstores).gain htakes hblocks).bounded
    rw [← hstores.held] at hblocks
    refine (ends_abandonDir howned hstores.lt htakes hblocks hbound).mono fun _ d' hkeeps => ?_
    exact ⟨lost, hkeeps, fun hsmall => absurd hsmall hbig⟩
  have hroom : L.HasRoom d dir dot := fun hsmall => by
    obtain ⟨start, hblocks, hzero⟩ := hfresh hsmall
    refine ⟨start, 0, hblocks, ?_⟩
    rw [hzero]
    exact findSlot_zeroBlock
  refine bind (ends_ownEntry howned hstores hpar hne (by decide) hroom index)
    (fun d' h => by simp at h) ?_
  rintro _ d₁ (⟨dir', gained, lost, heq, hbig, hblocks, htakes⟩ | ⟨dir₁, heq, hfirst⟩)
  · cases heq
    exact habandon howned hstores hbig hblocks htakes
  cases heq
  obtain ⟨lost, hkeeps, hnone⟩ := hfirst.keeps
  refine mono ?_ fun _ d' hleaves =>
    Leaves.after hkeeps hnone hleaves fun hsmall => hfirst.strands hsmall name
  have hroom' : L.HasRoom d₁ dir₁ dotDot := fun hsmall => by
    obtain ⟨start, hblocks, hzero⟩ := hfresh hsmall
    obtain ⟨hblocks', hentry⟩ := hfirst.entry hsmall start 0 hblocks
      (hzero.symm ▸ findSlot_zeroBlock.2)
    refine ⟨start, 1, hblocks', ?_⟩
    rw [hentry, hzero]
    exact findSlot_first index
  refine bind (ends_ownEntry hkeeps.owned hfirst.stores hfirst.found hne (by decide)
    hroom' parentIndex) (fun d' h => by simp at h) ?_
  rintro _ d₂ (⟨dir', gained, lost', heq, hbig, hblocks, htakes⟩ | ⟨dir₂, heq, hsnd⟩)
  · cases heq
    exact habandon hkeeps.owned hfirst.stores hbig hblocks htakes
  cases heq
  obtain ⟨lost', hkeeps', hnone'⟩ := hsnd.keeps
  refine mono ?_ fun _ d' hleaves =>
    Leaves.after hkeeps' hnone' hleaves fun hsmall => hsnd.strands hsmall name
  have hholds := hkeeps'.owned.holds hsnd.found.stores
  refine bind (ends_dirAddEntry hpar.lt hholds name index)
    (fun d' h => by cases h) fun outcome d₃ hadds => ?_
  cases hadds with
  | @refused gained lost _ _ _ _ htakes hexact =>
    have hall : L.Takes d₂ d₃ ([] ++ (gained ++ lost)) := htakes
    have hblocks : dir₂.blocks.Perm (L.heldBy d₂ index ++ []) := by
      rw [List.append_nil, hsnd.stores.held]
    refine (ends_abandonDir hkeeps'.owned hstores.lt hall hblocks
      (hkeeps'.owned.holds hsnd.stores).bounded).mono fun _ d' hends => ?_
    refine ⟨gained ++ lost, hends, fun hsmall => ?_⟩
    rw [(hexact hsmall).1]
    exact (hexact hsmall).2
  | @added _ lost parent' _ _ hhdr hblocks htakes hputs hexact =>
    obtain ⟨hadded, hafter⟩ :=
      keeps_of_added hkeeps'.owned hsnd.found.stores hhdr hblocks htakes hputs
    obtain ⟨d₄, hexec, hputs'⟩ := exec_writeInode L hpar.lt
      { parent'.withDirSize with nlink := (parent'.withDirSize.nlink + 1) % wordLimit } d₃
    refine bind_of_some hexec ?_
    refine ⟨lost, hadded.trans_nil (hputs'.toWrites.keeps_stored hadded.owned hafter rfl rfl),
      fun hsmall => ?_⟩
    obtain ⟨rfl, hnot⟩ := hexact hsmall
    exact iff_of_false (fun h => h rfl) hnot

/-- Making a directory strands blocks: it gets the first free block, and then
its parent has no room for the entry. -/
def MkdirStrands (layout : Layout) (d : Disk) (path : List UInt8) : Prop :=
  ∃ parent name start, layout.Creates d path parent name ∧
    (name ≠ [] ∧ name ≠ dot ∧ name ≠ dotDot) ∧ layout.FirstRun (layout.bitAt d) 1 start ∧
    layout.EntryStrands d (Super.setRun (layout.bitAt d) start 1 true) parent name

/-- The new directory gets the first free block, and the entry in its parent may strand more. -/
lemma ends_startDir (howned : L.Owned d) {parentIndex : Nat} {parent : Inode}
    (hpar : L.Found d parentIndex parent) (hindex : index < maxInodes)
    (hunused : (L.inodeAt d index).used = 0) (name : List UInt8) :
    (startDir L.toSuper parentIndex parent index name).Ends serve d fun _ d' =>
      L.Leaves (∃ start, L.FirstRun (L.bitAt d) 1 start ∧
        L.EntryStrands d (Super.setRun (L.bitAt d) start 1 true) parent name) d d' := by
  have hnil : newDir.blocks = [] := by decide
  have hheld : L.heldBy d index = [] := Super.heldBy_of_unused hunused
  have hone := of_imp fun hsmall : L.IntSized =>
    ends_ensureBlocks_one hsmall hnil (by decide) (by decide) d
  refine bind_attempt ((ends_ensureBlocks (holds_of_nil L d hnil) 1).and hone) ?_
  rintro grown d₁ ⟨hensures, hone⟩
  cases hensures with
  | @failed lost _ htakes _ =>
    have hall : L.Takes d d₁ ([] ++ lost) := htakes
    refine (ends_abandonDir howned hindex hall (by rw [hheld]; rfl)
      (holds_of_nil L d hnil).bounded).mono fun _ d₂ hkeeps => ?_
    refine ⟨lost, hkeeps, fun hsmall => ?_⟩
    obtain ⟨hsame, hfull⟩ := (hone hsmall).1 rfl
    refine iff_of_false (not_not.mpr (htakes.sameBits_iff.mp (hsame.sameBits_iff.mpr rfl))) ?_
    rintro ⟨start, hfirst, -⟩
    exact hfull start hfirst.free
  | @done gained lost dir _ hhdr hblocks _ htakes _ hexact =>
    obtain ⟨d₂, hwrite, hputs⟩ := exec_writeInode L hindex dir d₁
    refine bind_of_some (exec_attempt _ _ d₁) ?_
    rw [hwrite]
    have hused : dir.used % 2 ^ 32 ≠ 0 := by
      rw [hhdr.used]
      decide
    have hbound := ((holds_of_nil L d hnil).gain htakes hblocks).bounded
    have hkeeps : L.Keeps d d₂ lost := by
      refine hputs.toWrites.keeps hindex htakes howned ?_
      rw [hbound.held_wrapped hused, hheld]
      exact hblocks
    have hne := hpar.ne_unused hunused
    have hpar' : L.Found d₂ parentIndex parent := hpar.of_same
      ((hputs.others parentIndex hpar.lt hne).trans (htakes.inodes parentIndex hpar.lt))
    have hfresh : L.IntSized →
        ∃ start, dir.blocks = [start] ∧ d₂ (UInt32.ofNat start) = zeroBlock := by
      intro hsmall
      obtain ⟨start, hfirst, hblocks', -, hzero⟩ := (hone hsmall).2 dir rfl
      have hdata := (hfirst.free 0 Nat.one_pos).1
      refine ⟨start, hblocks', ?_⟩
      rw [hputs.data start hdata.1 (InData.small hdata)]
      exact hzero start (List.mem_singleton_self start)
    refine (ends_enterDir hkeeps.owned (hputs.toWrites.stores hindex hbound hused) hpar' hne
      hfresh name).mono fun _ d₃ hleaves => ?_
    refine Leaves.after hkeeps (fun hsmall => (hexact hsmall).1) hleaves fun hsmall => ?_
    obtain ⟨start, hfirst, -, htakes', -⟩ := (hone hsmall).2 dir rfl
    have hholds := howned.holds hpar.stores
    have hstrand : L.EntryStrands d₂ (L.bitAt d₂) parent name ↔
        L.EntryStrands d (Super.setRun (L.bitAt d) start 1 true) parent name := by
      refine entryStrands_congr hholds.within (fun block hblock => ?_) (fun block hblock => ?_) name
      · obtain ⟨hdata, hmark⟩ := hholds.inside block hblock
        rw [hputs.data block hdata.1 (InData.small hdata), htakes'.data block hdata]
        intro hmem
        rw [(htakes'.free block hmem).2] at hmark
        cases hmark
      · rw [hputs.bits block hblock]
        exact Takes.sameBits_setRun (show L.Takes d d₁ (Extent.blocks ⟨start, 1⟩) from htakes')
          block hblock
    rw [hstrand]
    refine ⟨fun h => ⟨start, hfirst, h⟩, fun ⟨start', hfirst', h⟩ => ?_⟩
    rw [hfirst.unique hfirst']
    exact h

lemma ends_mkdirPath (howned : L.Owned d) (path : List UInt8) :
    (mkdirPath L.toSuper path).Ends serve d fun _ d' =>
      L.Leaves (L.MkdirStrands d path) d d' := by
  have hnop : ¬L.MkdirStrands d path →
      L.Leaves (L.MkdirStrands d path) d d := (keeps_refl howned).leaves_nil
  refine ends_require_bind (fun hpath => hnop ?_) fun hpath => ?_
  · rintro ⟨parent, name, start, ⟨hne, -⟩, -⟩
    exact hpath hne
  refine ends_ofOption_bind (fun hsplit => hnop ?_) fun parts hsplit => ?_
  · rintro ⟨parent, name, start, ⟨-, parentPath, parentIndex, index, hsome, -⟩, -⟩
    rw [hsplit] at hsome
    cases hsome
  obtain ⟨parentPath, name⟩ := parts
  refine ends_require_bind (fun hspecial => hnop ?_) fun hplain => ?_
  · rintro ⟨parent, name', start, ⟨-, parentPath', parentIndex, index, hsome, -⟩, hname, -⟩
    cases hsplit.symm.trans hsome
    exact hspecial hname
  refine bind ((ends_prepareCreate L.toSuper path parentPath d).and (ends_exec _ d)) ?_ ?_
  · rintro d' ⟨⟨rfl, -⟩, hexec⟩
    refine hnop ?_
    rintro ⟨parent, name', start, ⟨-, parentPath', parentIndex, index, hsome, hprep⟩, -⟩
    cases hsplit.symm.trans hsome
    rw [hexec] at hprep
    cases hprep
  rintro ⟨parentIndex, parent, index⟩ d' ⟨⟨rfl, hfound⟩, hexec⟩
  obtain ⟨hpar, hindex, hunused⟩ := hfound _ rfl
  refine (ends_startDir howned hpar hindex hunused name).mono fun _ d₁ ⟨lost, hkeeps, hiff⟩ =>
    ⟨lost, hkeeps, fun hsmall => (hiff hsmall).trans ⟨fun ⟨start, hfirst, h⟩ => ?_, ?_⟩⟩
  · exact ⟨parent, name, start, ⟨hpath, parentPath, parentIndex, index, hsplit,
      congrArg Prod.fst hexec⟩, hplain, hfirst, h⟩
  rintro ⟨parent', name', start, ⟨-, parentPath', parentIndex', index', hsome, hprep⟩, -,
    hfirst, h⟩
  cases hsplit.symm.trans hsome
  rw [hexec] at hprep
  cases hprep
  exact ⟨start, hfirst, h⟩

end Layout

end NexOS.Nxfs
