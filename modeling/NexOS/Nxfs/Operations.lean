import NexOS.Nxfs.Creation

/-! # Runs of file system operations

The operations on a mounted volume, through its block cache. As long as the
block I/O is served and roomy, a volume behaves as its array of blocks. In
every run without a removal of an entry's own directory no block gets two
owners.
-/

namespace NexOS.Nxfs

/-- The operations that change a volume. A write and a truncation are given the
inode as it is stored. -/
inductive FsOp where
  | create (path : List UInt8)
  | mkdir (path : List UInt8)
  | write (index offset : Nat) (data : List UInt8)
  | truncate (index : Nat)
  | unlink (path : List UInt8)
  | rmdir (path : List UInt8)

namespace FsOp

/-- The program of an operation. -/
def program (super : Super) : FsOp → FsM Unit
  | .create path => do
      let _ ← createPath super path
      return ()
  | .mkdir path => do
      let _ ← mkdirPath super path
      return ()
  | .write index offset data => do
      let inode ← readInode super index
      let _ ← writeFileRange super index inode offset data
      return ()
  | .truncate index => do
      let inode ← readInode super index
      let _ ← truncateInode super index inode
      return ()
  | .unlink path => unlinkPath super path
  | .rmdir path => rmdirPath super path

/-- The operation leaves blocks without an owner. -/
def Strands (layout : Layout) (d : Disk) : FsOp → Prop
  | .create path => layout.CreateStrands d path
  | .mkdir path => layout.MkdirStrands d path
  | .write index offset data =>
    ∃ inode, layout.Found d index inode ∧ layout.WriteStrands d inode offset data
  | .truncate _ | .unlink _ | .rmdir _ => False

/-- The operation removes a directory whose entry is in that directory itself. -/
def RemovesParent (layout : Layout) (d : Disk) : FsOp → Prop
  | .rmdir path => layout.RemovesParent d path
  | _ => False

variable {L : Layout} {d : Disk}

/-- An operation on a sound disk, unless it removes the directory that its own
entry is in. -/
lemma ends_program (howned : L.Owned d) (op : FsOp) (hapart : ¬op.RemovesParent L d) :
    (op.program L.toSuper).Ends Disk.serve d fun _ d' =>
      L.Leaves (op.Strands L d) d d' := by
  cases op with
  | create path =>
    exact Program.Ends.bind (L.ends_createPath howned path) (fun _ h => h) fun _ _ h => h
  | mkdir path =>
    exact Program.Ends.bind (L.ends_mkdirPath howned path) (fun _ h => h) fun _ _ h => h
  | write index off data =>
    refine Program.Ends.bind ((ends_readInode L.toSuper index d).and (Program.ends_exec _ d)) ?_ ?_
    · rintro d' ⟨⟨rfl, -⟩, hexec⟩
      refine (Layout.keeps_refl howned).leaves_nil ?_
      rintro ⟨inode, hfound, -⟩
      rw [exec_readInode, if_pos ⟨hfound.lt, hfound.stored ▸ hfound.used⟩] at hexec
      cases hexec
    · rintro inode d' ⟨⟨rfl, hfound⟩, -⟩
      have hfound := hfound inode rfl
      have hstrand : L.WriteStrands d' inode off data ↔
          (FsOp.write index off data).Strands L d' := by
        constructor
        · exact fun h => ⟨inode, hfound, h⟩
        · rintro ⟨inode', hfound', h⟩
          rwa [hfound.stored, ← hfound'.stored]
      have hwrite := L.ends_writeFileRange howned hfound off data
      simp only [hstrand] at hwrite
      exact Program.Ends.bind hwrite (fun _ h => h) fun _ _ h => h
  | truncate index =>
    refine Program.Ends.bind (ends_readInode L.toSuper index d) ?_ ?_
    · rintro d' ⟨rfl, -⟩
      exact (Layout.keeps_refl howned).leaves_nil id
    · rintro inode d' ⟨rfl, hfound⟩
      exact Program.Ends.bind (L.ends_truncateInode howned (hfound inode rfl))
        (fun _ h => h) fun _ _ h => h
  | unlink path => exact L.ends_unlinkPath howned path
  | rmdir path => exact L.ends_rmdirPath howned path hapart

end FsOp

/-! ## On the cached volume -/

variable {vol : Volume} {L : Layout} {index : Nat}

namespace Volume

/-- The operations on a volume. -/
def serve (op : IoOp) (vol : Volume) : Option op.Result × Volume := vol.step op

/-- The epoch does not wrap during the command, and the device serves it. -/
def Serves (op : IoOp) (vol : Volume) : Prop := vol.Roomy op ∧ (vol.step op).1.isSome = true

instance (op : IoOp) (vol : Volume) : Decidable (Serves op vol) :=
  inferInstanceAs (Decidable ((_ ∧ _) ∧ _))

/-- A coherent volume whose commands are served runs a program as its array of
blocks does. -/
lemma Coherent.exec {α : Type} (hvol : vol.Coherent) (p : FsM α)
    (hserves : p.Meets serve Serves vol) :
    (p.exec serve vol).1 = (p.exec Disk.serve vol.contents).1 ∧
      (p.exec serve vol).2.contents = (p.exec Disk.serve vol.contents).2 ∧
      (p.exec serve vol).2.Coherent := by
  have hstep : ∀ (op : IoOp) (vol : Volume) (d : Disk), vol.Coherent ∧ vol.contents = d →
      Serves op vol → (serve op vol).1 = (Disk.serve op d).1 ∧
        (serve op vol).2.Coherent ∧ (serve op vol).2.contents = (Disk.serve op d).2 := by
    rintro op vol _ ⟨hvol, rfl⟩ ⟨hroomy, hsome⟩
    obtain ⟨hwrote, hres⟩ := hvol.step hroomy
    obtain ⟨result, hres'⟩ := Option.isSome_iff_exists.mp hsome
    have hstep := hres result hres'
    refine ⟨?_, hwrote.coherent, ?_⟩
    · exact hres'.trans (congrArg (fun x => some x.1) hstep).symm
    · exact (congrArg Prod.snd hstep).symm
  obtain ⟨hreply, hcoh, hcont⟩ := Program.exec_simulates hstep p ⟨hvol, rfl⟩ hserves
  exact ⟨hreply, hcont, hcoh⟩

/-- The volume after an operation. -/
def perform (super : Super) (vol : Volume) (op : FsOp) : Volume :=
  ((op.program super).exec serve vol).2

/-- The volume after a list of operations. -/
def performAll (super : Super) (vol : Volume) (ops : List FsOp) : Volume :=
  GuardedRuns.run (perform super) vol ops

/-- Each operation, when it is its turn, is served and does not remove the
directory that its own entry is in. -/
def RunServed (layout : Layout) (vol : Volume) (ops : List FsOp) : Prop :=
  GuardedRuns.RunFits (perform layout.toSuper) (fun vol op =>
    (op.program layout.toSuper).Meets serve Serves vol ∧
      ¬op.RemovesParent layout vol.contents) vol ops

lemma Coherent.perform (hvol : vol.Coherent) (howned : L.Owned vol.contents) (op : FsOp)
    (hserves : (op.program L.toSuper).Meets serve Serves vol)
    (hapart : ¬op.RemovesParent L vol.contents) :
    (vol.perform L.toSuper op).Coherent ∧ L.Leaves (op.Strands L vol.contents) vol.contents
        (vol.perform L.toSuper op).contents := by
  obtain ⟨-, hcont, hcoh⟩ := hvol.exec _ hserves
  have hends := FsOp.ends_program howned op hapart
  unfold Program.Ends at hends
  rw [← hcont] at hends
  exact ⟨hcoh, hends⟩

lemma owned_performAll (hvol : vol.Coherent)
    (howned : L.Owned vol.contents) {ops : List FsOp} (hserve : vol.RunServed L ops) :
    L.Owned (vol.performAll L.toSuper ops).contents := by
  have hrun := GuardedRuns.run_preserves (fun vol : Volume => vol.Coherent ∧ L.Owned vol.contents)
    (fun vol op hinv hfits => ?_) ⟨hvol, howned⟩ hserve
  · exact hrun.2
  · obtain ⟨hcoh, lost, hkeeps, -⟩ := hinv.1.perform hinv.2 op hfits.1 hfits.2
    exact ⟨hcoh, hkeeps.owned⟩

end Volume

/-! ## Small volumes -/

namespace Layout

variable {L : Layout} {d : Disk}

/-- An inode in a part of the table that holds zero bytes is not used. -/
lemma unused_of_blank (first : Nat) (hindex : index < maxInodes)
    (hfirst : first * blockSize ≤ L.inodeOffset index)
    (hblank : ∀ block, first ≤ block → block < L.dataStart →
      d (UInt32.ofNat block) = zeroBlock) : (L.inodeAt d index).used = 0 := by
  obtain ⟨hdata, hend⟩ := L.inode_end hindex
  have hbytes : d.readBytes (L.inodeOffset index) inodeSize =
      Disk.readBytes (fun _ => zeroBlock) (L.inodeOffset index) inodeSize := by
    refine Disk.readBytes_congr hend fun block hle hlt => hblank block ?_ ?_
    · exact Nat.le_trans ((Nat.le_div_iff_mul_le (by decide)).mpr hfirst) hle
    · exact Nat.lt_of_mul_lt_mul_right (hlt.trans_le hdata)
  unfold Super.inodeAt
  rw [hbytes]
  -- The bytes are zero wherever they are read from.
  change (Inode.decode ((List.range inodeSize).map fun _ => 0)).used = 0
  decide

/-- Only the first inodes own blocks if the others are not used. -/
lemma lt_of_mem_heldBy {count block : Nat}
    (hrest : ∀ index, count ≤ index → index < maxInodes → (L.inodeAt d index).used = 0)
    (hblock : block ∈ L.heldBy d index) : index < count := by
  by_contra hge
  rw [Nat.not_lt] at hge
  by_cases hindex : index < maxInodes
  · rw [Super.heldBy_of_unused (hrest index hge hindex)] at hblock
    cases hblock
  · rw [Super.heldBy, if_neg hindex] at hblock
    cases hblock

/-- A disk is sound if its first inodes are and the others are not used. -/
lemma owned_of_first {count : Nat}
    (hrest : ∀ index, count ≤ index → index < maxInodes → (L.inodeAt d index).used = 0)
    (hfirst : ∀ index < count, (L.heldBy d index).Nodup ∧
      ∀ block ∈ L.heldBy d index, L.InData block ∧ L.bitAt d block = true ∧
        ∀ other < count, other ≠ index → block ∉ L.heldBy d other) : L.Owned d := by
  have hlt : ∀ {index block}, block ∈ L.heldBy d index → index < count :=
    fun hblock => lt_of_mem_heldBy hrest hblock
  refine ⟨fun index => ?_, fun a b hne block ha hb => ?_, fun index block hblock => ?_⟩
  · by_cases hindex : index < count
    · exact (hfirst index hindex).1
    have hnil : L.heldBy d index = [] :=
      List.eq_nil_iff_forall_not_mem.mpr fun block hblock => hindex (hlt hblock)
    change (L.heldBy d index).Nodup
    rw [hnil]
    exact List.nodup_nil
  · exact ((hfirst a (hlt ha)).2 block ha).2.2 b (hlt hb) hne.symm hb
  · obtain ⟨hdata, hmark, -⟩ := (hfirst index (hlt hblock)).2 block hblock
    exact ⟨hdata, (L.ledger_marked_iff d hdata.2).trans hmark⟩

end Layout

/-- A volume of 232 blocks. -/
def smallLayout : Layout where
  totalBlocks := 232
  bitmapStart := 1
  inodeStart := 2
  dataStart := 228
  bitmap_covers := by decide
  inodes_fit := by decide
  inodes_small := by decide
  data_le := by decide
  total_small := by decide

/-- A device with a small volume: the last byte of its bitmap, its first inodes
and its data blocks. -/
def smallVolume (lastBits : UInt8) (inodes : List Inode) (data : Nat → Block) : Device where
  blocks block :=
    if block = 1 then fun i => if i.val < 28 then 0xff else if i.val = 28 then lastBits else 0
    else if block = 2 then zeroBlock.patch 0 (inodes.flatMap Inode.encode)
    else if block < 228 then zeroBlock
    else data block
  blockCount := 232

/-- An inode with one extent. -/
def plainInode (type size start len : Nat) : Inode :=
  { Inode.zero with used := 1, type := type, mode := 0o755, nlink := 2, size := size }.setExtent 0
    ⟨start, len⟩

lemma unused_smallVolume (lastBits : UInt8) (inodes : List Inode) (data : Nat → Block)
    (hge : 5 ≤ index) (hindex : index < maxInodes) :
    (smallLayout.inodeAt (Volume.mounted (smallVolume lastBits inodes data) 0).contents
      index).used = 0 := by
  refine Layout.unused_of_blank 3 hindex ?_ fun block hle hlt => ?_
  · rw [smallLayout.inodeOffset_eq hindex]
    change 3 * 512 ≤ 2 * 512 + index * 113
    omega
  · have hlt : block < 228 := hlt
    change (smallVolume lastBits inodes data).blocks (0 + UInt32.ofNat block).toNat = zeroBlock
    rw [UInt32.zero_add, UInt32.toNat_ofNat_of_lt' (Nat.lt_trans hlt (by decide))]
    simp only [smallVolume]
    rw [if_neg (by omega), if_neg (by omega), if_pos hlt]

/-- A small volume with an empty root directory. -/
def rootDevice : Device := smallVolume 0x1f [plainInode typeDir 512 228 1] fun _ => zeroBlock

/-- The root holds a directory `d` of two blocks. The first block is full of
entries `.`, and the second has an entry `x` that names `d` again. -/
def loopDevice : Device :=
  smallVolume 0x7f [plainInode typeDir 512 228 1, plainInode typeDir 1024 229 2] fun block =>
    if block = 228 then zeroBlock.setEntry 0 1 [100]
    else if block = 229 then
      (List.range 16).foldl (fun entries slot => entries.setEntry slot 1 dot) zeroBlock
    else if block = 230 then zeroBlock.setEntry 0 1 [120]
    else zeroBlock

/-! ## Every run -/

namespace Volume

/-- In every run from a mounted sound image whose operations are all served, and
none of which removes the directory that its own entry is in, no block ever has
two owners. -/
theorem run_owned (layout : Layout) (device : Device) (partitionLba : UInt32) (ops : List FsOp)
    (hsmall : device.blockCount ≤ wordLimit)
    (howned : layout.Owned (mounted device partitionLba).contents)
    (hserved : (mounted device partitionLba).RunServed layout ops) (done rest : List FsOp)
    (hsplit : ops = done ++ rest) :
    layout.Owned ((mounted device partitionLba).performAll layout.toSuper done).contents := by
  subst hsplit
  exact owned_performAll (mounted_coherent hsmall partitionLba) howned
    (GuardedRuns.runFits_append.mp hserved).1

/-- A new directory, and a file in it that is written. -/
theorem run_owned_mkdir_write :
    smallLayout.Owned ((mounted rootDevice 0).performAll smallLayout.toSuper
      [.mkdir [47, 97], .create [47, 97, 47, 98], .write 2 600 [1, 2, 3]]).contents :=
  run_owned smallLayout rootDevice 0
    [.mkdir [47, 97], .create [47, 97, 47, 98], .write 2 600 [1, 2, 3]] (by decide)
    (Layout.owned_of_first (fun _ => unused_smallVolume 0x1f _ _) (by decide +kernel))
    ⟨⟨by decide +kernel, id⟩, ⟨by decide +kernel, id⟩, ⟨by decide +kernel, id⟩, trivial⟩
    _ [] rfl

/-- Removing `/d/x`, where `x` is an entry of `d` that names `d` itself, succeeds
and leaves a used inode whose blocks are free. Only the first sixteen entries of
`d` are looked at, so it passes for empty. -/
theorem rmdir_parent_breaks : smallLayout.Owned (mounted loopDevice 0).contents ∧
      (FsOp.program smallLayout.toSuper (.rmdir [47, 100, 47, 120])).Meets serve Serves
        (mounted loopDevice 0) ∧
      ¬smallLayout.Owned ((mounted loopDevice 0).perform smallLayout.toSuper
        (.rmdir [47, 100, 47, 120])).contents := by
  refine ⟨Layout.owned_of_first (fun _ => unused_smallVolume 0x7f _ _) (by decide +kernel),
    by decide +kernel, fun howned => ?_⟩
  have hafter :
      let d := ((mounted loopDevice 0).perform smallLayout.toSuper
        (.rmdir [47, 100, 47, 120])).contents
      229 ∈ smallLayout.heldBy d 1 ∧ smallLayout.bitAt d 229 = false := by decide +kernel
  exact Bool.false_ne_true (hafter.2.symm.trans (howned.inside_of_mem hafter.1).2)

end Volume

end NexOS.Nxfs
