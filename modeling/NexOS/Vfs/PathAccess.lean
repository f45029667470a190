import NexOS.Nxfs.Operations
import NexOS.Vfs.Namespace
import NexOS.Vfs.Service

/-! # Access along a path

A call on a path should succeed only if the process may search every directory from
the root of the volume down to the one that the object is in, and has the permissions
that the call needs, all by the modes as they are stored. The service looks at one
directory, the one that the text of the path names as its parent, and replaces modes
without permissions. So a call that succeeds is permitted exactly if the directories
it did not look at allow it by themselves, and no mode it did look at was replaced.
-/

namespace NexOS.Vfs

open Option PathText Nat

open NexOS.Proc (MountKind Process)
open NexOS.Nxfs (Super Disk Inode FsM typeDir typeFile maxInodes rootInode slash)
open NexOS.File (ProcSlot PipeEnd)

/-! ## Stored permissions -/

section Modes

variable {proc : Process} {inode : Inode} {mode required : Nat}

lemma classBits_and (proc : Process) (inode : Inode) (mode : Nat) :
    classBits proc inode (mode &&& 0o777) = classBits proc inode mode := by
  have hshift : ∀ k ≤ 6, ((mode &&& 0o777) >>> k) &&& 7 = (mode >>> k) &&& 7 := by
    intro k hk
    apply eq_of_testBit_eq
    intro i
    rw [show (0o777 : Nat) = 2 ^ 9 - 1 from rfl, show (7 : Nat) = 2 ^ 3 - 1 from rfl]
    simp only [testBit_and, testBit_shiftRight, testBit_two_pow_sub_one]
    by_cases hi : i < 3
    · simp [show k + i < 9 by omega]
    · simp [hi]
  unfold classBits
  rw [hshift 6 le_rfl, hshift 3 (by decide)]
  have hzero := hshift 0 (by decide)
  rw [shiftRight_zero, shiftRight_zero] at hzero
  rw [hzero]

/-- Permissions are there in no mode without permissions. -/
lemma Grants.mode_ne_zero (hgrants : Grants proc inode mode required) (hreq : required ≠ 0) :
    mode &&& 0o777 ≠ 0 := by
  intro hzero
  unfold Grants at hgrants
  rw [← classBits_and, hzero] at hgrants
  have hbits : classBits proc inode 0 = 0 := by simp [classBits]
  rw [hbits, zero_and] at hgrants
  exact hreq hgrants.symm

/-- A mode with permissions is not replaced. -/
lemma Grants.of_effective (hgrants : Grants proc inode (effectiveMode inode) required)
    (hmode : inode.mode &&& 0o777 ≠ 0) : Grants proc inode inode.mode required := by
  unfold effectiveMode at hgrants
  rw [if_pos hmode] at hgrants
  unfold Grants at hgrants ⊢
  rwa [classBits_and] at hgrants

lemma grants_zero (proc : Process) (inode : Inode) (mode : Nat) : Grants proc inode mode 0 :=
  and_zero _

end Modes

/-! ## Walks -/

variable {index : Nat} {inode : Inode} {tree : Tree}

namespace Tree

/-- The inode of a name in a directory. -/
def child (tree : Tree) (dir : Nat) (name : List UInt8) : Option Nat :=
  let inode := tree.super.inodeAt tree.disk dir
  if dir < maxInodes ∧ inode.used ≠ 0 ∧ inode.type = typeDir then
    (tree.exec (Nxfs.dirLookupEntry inode name)).1.map fun entry => entry.1
  else none

/-- The inode at the end of a row of names. -/
def walk (tree : Tree) (names : List (List UInt8)) : Option Nat :=
  PathText.walk tree.child rootInode names

def Holds (tree : Tree) (index : Nat) (inode : Inode) : Prop :=
  tree.super.Found tree.disk index inode

lemma Holds.unique {other : Inode} (hinode : tree.Holds index inode)
    (hother : tree.Holds index other) : inode = other :=
  hinode.stored.trans hother.stored.symm

lemma segments_of_pathNextSegment {path segment rest : List UInt8}
    (hnext : Nxfs.pathNextSegment path = some (segment, rest)) :
    segments slash path = segment :: segments slash rest := by
  unfold Nxfs.pathNextSegment at hnext
  dsimp only at hnext
  split at hnext
  · cases hnext
  next hsome =>
    obtain ⟨rfl, rfl⟩ := hnext
    rw [← segments_dropWhile, segments_dropWhile (List.dropWhile _ _)]
    rcases hpath : path.dropWhile fun c => decide (c = slash) with _ | ⟨first, after⟩
    · simp [hpath] at hsome
    have hne : (path.dropWhile fun c => decide (c = slash)) ≠ [] := by simp [hpath]
    have hfirst := List.head_dropWhile_not (fun c => decide (c = slash)) hne
    simp only [hpath, List.head_cons] at hfirst
    exact segments_cons (by simpa using hfirst) after

variable {tree : Tree}

lemma ends_lookupFrom (tree : Tree) (fuel : Nat) (path : List UInt8) {current : Inode}
    (hcur : tree.Holds index current) :
    (Nxfs.lookupFrom tree.super fuel path current).Ends Disk.serve tree.disk fun r d' =>
      d' = tree.disk ∧ ∀ x, r = some x →
        PathText.walk tree.child index (PathText.segments slash path) = some x.1 ∧
          tree.Holds x.1 x.2 := by
  induction fuel generalizing path index current with
  | zero => exact ⟨rfl, nofun⟩
  | succ fuel ih =>
    refine Program.ends_ofOption_bind (fun _ => ⟨rfl, nofun⟩) fun parts hparts => ?_
    obtain ⟨segment, rest⟩ := parts
    refine Program.ends_require_bind (fun _ => ⟨rfl, nofun⟩) fun hdir => ?_
    refine Program.Ends.bind ((Nxfs.readOnly_findDirEntrySlot current _).ends tree.disk)
      (fun d' h => ⟨h.1, nofun⟩) fun entry d' h => ?_
    obtain ⟨rfl, hentry⟩ := h
    refine Program.Ends.bind (Nxfs.ends_readInode tree.super _ tree.disk)
      (fun d'' h => ⟨h.1, nofun⟩) fun next d'' h => ?_
    obtain ⟨rfl, hfound⟩ := h
    have hchild : tree.child index segment = some entry.1 := by
      unfold child
      rw [← hcur.stored, if_pos ⟨hcur.lt, hcur.used, hdir⟩, exec, Nxfs.dirLookupEntry, hentry]
      rfl
    have hstep : PathText.walk tree.child index (PathText.segments slash path) =
        PathText.walk tree.child entry.1 (PathText.segments slash rest) := by
      rw [segments_of_pathNextSegment hparts, PathText.walk, hchild]
      rfl
    split
    next hrest =>
      have hnil : rest = [] := List.isEmpty_iff.mp hrest
      refine ⟨rfl, fun x hx => ?_⟩
      cases hx
      exact ⟨by rw [hstep, hnil]; rfl, hfound next rfl⟩
    · rw [hstep]
      exact ih rest (hfound next rfl)

/-- The file system looks a path up by walking along its segments. -/
lemma walk_of_lookup {path : List UInt8} (hlook : tree.lookup path = some (index, inode)) :
    tree.walk (PathText.segments slash path) = some index ∧ tree.Holds index inode := by
  have hends : (Nxfs.lookupPath tree.super path).Ends Disk.serve tree.disk fun r d' =>
      d' = tree.disk ∧ ∀ x, r = some x →
        tree.walk (PathText.segments slash path) = some x.1 ∧ tree.Holds x.1 x.2 := by
    refine Program.Ends.bind (Nxfs.ends_readInode tree.super rootInode tree.disk)
      (fun d' h => ⟨h.1, nofun⟩) fun root d' h => ?_
    obtain ⟨rfl, hfound⟩ := h
    refine Program.ends_require_bind (fun _ => ⟨rfl, nofun⟩) fun _ => ?_
    dsimp only
    rw [← PathText.segments_dropWhile]
    split
    next hempty =>
      refine ⟨rfl, fun x hx => ?_⟩
      cases hx
      rw [List.isEmpty_iff.mp hempty]
      exact ⟨rfl, hfound root rfl⟩
    · exact ends_lookupFrom tree _ _ (hfound root rfl)
  unfold lookup exec at hlook
  unfold Program.Ends at hends
  generalize (Nxfs.lookupPath tree.super path).exec Disk.serve tree.disk = result at hends hlook
  exact hends.2 _ hlook

end Tree

/-! ## Needs -/

/-- What a call needs besides searching the directories: permissions of the directory
that the object is in, permissions of the object, and whether the object must belong to
the process. -/
structure Need where
  parent : Nat := 0
  object : Nat := 0
  owner : Bool := false
  deriving DecidableEq

/-- The permissions of a directory with the segments `rest` after it. -/
def Need.dir (need : Need) (rest : List (List UInt8)) : Nat :=
  if rest = [] then permExec ||| need.parent else permExec

/-- By the modes as they are stored, the process may search every directory from the
root to the one that the object is in, and has what the call needs. -/
structure Permitted (proc : Process) (tree : Tree) (names : List (List UInt8)) (need : Need) :
    Prop where
  dirs : ∀ {dirs name rest index inode}, names = dirs ++ name :: rest →
    tree.walk dirs = some index → tree.Holds index inode →
      Grants proc inode inode.mode (need.dir rest)
  object : ∀ {index inode}, tree.walk names = some index → tree.Holds index inode →
    Grants proc inode inode.mode need.object ∧ (need.owner = true → proc.uid.toNat = inode.uid)

/-- What is left to hold if one directory was looked at, and the object where its
permissions matter: the other directories allow what is needed, and the modes that were
looked at have permissions. -/
structure Covered (proc : Process) (tree : Tree) (names : List (List UInt8)) (need : Need)
    (checked : Option Nat) : Prop where
  unchecked : ∀ {dirs name rest index inode}, names = dirs ++ name :: rest →
    tree.walk dirs = some index → tree.Holds index inode → checked ≠ some index →
      Grants proc inode inode.mode (need.dir rest)
  checked : ∀ {dirs name rest index inode}, names = dirs ++ name :: rest →
    tree.walk dirs = some index → tree.Holds index inode → checked = some index →
      inode.mode &&& 0o777 ≠ 0
  object : ∀ {index inode}, need.object ≠ 0 → tree.walk names = some index →
    tree.Holds index inode → inode.mode &&& 0o777 ≠ 0

/-- What a check of one directory and of the object finds out. -/
structure Checks (proc : Process) (tree : Tree) (names : List (List UInt8)) (need : Need)
    (checked : Option Nat) : Prop where
  dir : ∀ {index inode}, checked = some index → tree.Holds index inode →
    Grants proc inode (effectiveMode inode) (permExec ||| need.parent)
  object : ∀ {index inode}, tree.walk names = some index → tree.Holds index inode →
    Grants proc inode (effectiveMode inode) need.object ∧
      (need.owner = true → proc.uid.toNat = inode.uid)

lemma Grants.of_or {proc : Process} {mode first second : Nat}
    (hgrants : Grants proc inode mode (first ||| second)) : Grants proc inode mode first := by
  have hbits : classBits proc inode mode &&& (first ||| second) &&& first =
      (first ||| second) &&& first := congrArg (· &&& first) hgrants
  rw [Nat.and_assoc] at hbits
  have habsorb : (first ||| second) &&& first = first := by
    apply eq_of_testBit_eq
    intro i
    simp only [testBit_and, testBit_or]
    cases first.testBit i with
    | false => simp
    | true => simp
  rwa [habsorb] at hbits

lemma Need.dir_ne_zero (need : Need) (rest : List (List UInt8)) : need.dir rest ≠ 0 := by
  unfold Need.dir permExec
  split
  · intro hzero
    have hbit := congrArg (Nat.testBit · 0) hzero
    simp at hbit
  · exact one_ne_zero

/-- Where the check was made, a call is permitted exactly if what the check left out
holds. -/
lemma Checks.permitted_iff {proc : Process} {names : List (List UInt8)} {need : Need}
    {checked : Option Nat} (hchecks : Checks proc tree names need checked) :
    Permitted proc tree names need ↔ Covered proc tree names need checked := by
  constructor
  · intro hperm
    refine ⟨fun hnames hwalk hholds _ => hperm.dirs hnames hwalk hholds, ?_, ?_⟩
    · intro dirs name rest index inode hnames hwalk hholds _
      exact (hperm.dirs hnames hwalk hholds).mode_ne_zero (need.dir_ne_zero rest)
    · intro index inode hneed hwalk hholds
      exact (hperm.object hwalk hholds).1.mode_ne_zero hneed
  intro hcov
  constructor
  · intro dirs name rest index inode hnames hwalk hholds
    by_cases hindex : checked = some index
    · have hgrants := (hchecks.dir hindex hholds).of_effective
        (hcov.checked hnames hwalk hholds hindex)
      unfold Need.dir
      split
      · exact hgrants
      · exact hgrants.of_or
    · exact hcov.unchecked hnames hwalk hholds hindex
  · intro index inode hwalk hholds
    obtain ⟨hgrants, howner⟩ := hchecks.object hwalk hholds
    refine ⟨?_, howner⟩
    by_cases hneed : need.object = 0
    · rw [hneed]
      exact grants_zero proc inode inode.mode
    · exact hgrants.of_effective (hcov.object hneed hwalk hholds)

/-! ## What the service looks at -/

namespace Service

variable {Dev : Type} {st : Service Dev} {proc : Process} {path : List Char}
  {slot required : Nat} {child : List UInt8}

/-- The directory of a volume that the text of the path names as its parent. -/
def parentDir (st : Service Dev) (path : List Char) : Option (Nat × Nat) :=
  match (parentPath path).bind st.vfsOpendir with
  | some (.nxfs slot index _) => some (slot, index)
  | _ => none

/-- Whether a call looks at the parent directory. Calls on pipes and changes of modes
do not. -/
def looks (st : Service Dev) (path : List Char) : ServiceCall → Bool
  | .mkfifo | .chmod _ => false
  | .openPath _ | .remove => !(st.files.findNamed path).isSome
  | .opendir | .mkdir | .rmdir => true

/-- The directory whose permissions the call checks. -/
def checkedIn (st : Service Dev) (path : List Char) (call : ServiceCall)
    (slot : Nat) : Option Nat :=
  if st.looks path call then
    ((st.parentDir path).filter fun dir => decide (dir.1 = slot)).map fun dir => dir.2
  else none

/-- What a call needs on a path of a volume. A pipe has no mode of its own. -/
def need (st : Service Dev) (path : List Char) (tree : Tree) (child : List UInt8) :
    ServiceCall → Need
  | .openPath flags =>
    if (st.files.findNamed path).isSome then {}
    else if (tree.lookup child).isSome then { object := flags.required }
    else { parent := permWrite }
  | .opendir => { object := permRead ||| permExec }
  | .mkdir | .rmdir | .mkfifo => { parent := permWrite }
  | .remove =>
    if (st.files.findNamed path).isSome then { parent := permWrite }
    else { parent := permWrite, object := permWrite }
  | .chmod _ => { owner := true }

lemma within_eq_some {parsed : ParsedPath}
    (hwithin : st.within parsed = some (slot, tree, child)) : st.volumes slot = some tree := by
  unfold within at hwithin
  split at hwithin
  · obtain ⟨tree', htree, heq⟩ := map_eq_some_iff.mp hwithin
    cases heq
    exact htree
  · cases hwithin

lemma place_of_target (htgt : st.target path = some (slot, tree, child)) :
    st.place path = some (slot, tree, child) := by
  obtain ⟨parsed, hparse, hwithin⟩ := bind_eq_some_iff.mp htgt
  split at hwithin
  · cases hwithin
  · exact bind_eq_some_iff.mpr ⟨parsed, hparse, hwithin⟩

lemma volume_of_place (hplace : st.place path = some (slot, tree, child)) :
    st.volumes slot = some tree := by
  obtain ⟨parsed, -, hwithin⟩ := bind_eq_some_iff.mp hplace
  exact within_eq_some hwithin

lemma vfsOpendir_eq_some (hopen : st.vfsOpendir path = some (.nxfs slot index inode)) :
    ∃ tree child, st.place path = some (slot, tree, child) ∧
      tree.lookup child = some (index, inode) := by
  obtain ⟨parsed, hparse, hnode⟩ := bind_eq_some_iff.mp hopen
  split at hnode
  · cases hnode
  split at hnode
  · split at hnode
    · cases hnode
    · cases hnode
  obtain ⟨⟨slot', tree, child⟩, hwithin, hnode⟩ := bind_eq_some_iff.mp hnode
  obtain ⟨⟨index', inode'⟩, hlook, hnode⟩ := bind_eq_some_iff.mp hnode
  dsimp only at hnode
  split at hnode
  · cases hnode
    exact ⟨tree, child, bind_eq_some_iff.mpr ⟨parsed, hparse, hwithin⟩, hlook⟩
  · cases hnode

lemma vfsOpen_eq_some (hopen : st.vfsOpen path = some (slot, index, inode)) :
    ∃ tree child, st.place path = some (slot, tree, child) ∧
      tree.lookup child = some (index, inode) := by
  obtain ⟨⟨slot', tree, child⟩, htgt, hnode⟩ := bind_eq_some_iff.mp hopen
  obtain ⟨⟨index', inode'⟩, hlook, hnode⟩ := bind_eq_some_iff.mp hnode
  dsimp only at hnode
  split at hnode
  · cases hnode
    exact ⟨tree, child, place_of_target htgt, hlook⟩
  · cases hnode

lemma lookupNxfsNode_eq_some (hfound : st.lookupNxfsNode path = some (slot, index, inode)) :
    ∃ tree child, st.place path = some (slot, tree, child) ∧
      tree.lookup child = some (index, inode) := by
  unfold lookupNxfsNode at hfound
  split at hfound
  next found hopen =>
    cases hfound
    exact vfsOpen_eq_some hopen
  · split at hfound
    next hopen =>
      cases hfound
      exact vfsOpendir_eq_some hopen
    · cases hfound

lemma canAccessNxfsNode_nxfs (huid : proc.uid ≠ 0#32)
    (hacc : canAccessNxfsNode proc (.nxfs slot index inode) required = true) :
    Grants proc inode (effectiveMode inode) required := by
  rw [canAccessNxfsNode, decide_eq_true_iff] at hacc
  rcases hacc with rfl | hroot | hgrants
  · exact grants_zero proc inode _
  · exact absurd hroot huid
  · exact hgrants

/-- The check of the parent grants what it asks for, on the directory that it opens. -/
lemma canAccessParentDir_grants (huid : proc.uid ≠ 0#32)
    (hacc : st.canAccessParentDir proc path required = true)
    (hpar : st.parentDir path = some (slot, index)) (hvol : st.volumes slot = some tree)
    (hholds : tree.Holds index inode) : Grants proc inode (effectiveMode inode) required := by
  unfold parentDir at hpar
  unfold canAccessParentDir at hacc
  split at hpar
  next inode' hnode =>
    cases hpar
    obtain ⟨text, -, hopen⟩ := bind_eq_some_iff.mp hnode
    obtain ⟨tree', child, hplace, hlook⟩ := vfsOpendir_eq_some hopen
    obtain rfl : tree' = tree := Option.some.inj ((volume_of_place hplace).symm.trans hvol)
    obtain rfl := (Tree.walk_of_lookup hlook).2.unique hholds
    split at hacc
    next hzero =>
      rw [hzero]
      exact grants_zero proc inode' _
    · rw [hnode] at hacc
      exact canAccessNxfsNode_nxfs huid hacc
  · cases hpar

/-! ## Every call -/

section Calls

variable {procSlot : ProcSlot} {slot : Nat} {tree : Tree} {child : List UInt8} {value : Nat}
  {call : ServiceCall}

/-- A lookup that succeeds finds what the walk leads to. -/
lemma holds_of_lookup {index' : Nat} {inode' : Inode}
    (hlook : tree.lookup child = some (index, inode))
    (hwalk : tree.walk (segments slash child) = some index')
    (hholds : tree.Holds index' inode') : inode' = inode := by
  obtain ⟨hwalk', hholds'⟩ := Tree.walk_of_lookup hlook
  cases hwalk.symm.trans hwalk'
  exact hholds.unique hholds'

/-- What a call has made sure of when it succeeds. -/
structure Passed (st : Service Dev) (proc : Process) (path : List Char) (call : ServiceCall)
    (tree : Tree) (child : List UInt8) (need : Need) : Prop where
  parent : st.looks path call = true →
    st.canAccessParentDir proc path (permExec ||| need.parent) = true
  object : ∀ {index inode}, tree.lookup child = some (index, inode) →
    Grants proc inode (effectiveMode inode) need.object ∧
      (need.owner = true → proc.uid.toNat = inode.uid)
  found : need.object ≠ 0 ∨ need.owner = true → (tree.lookup child).isSome = true

/-- A call that needs nothing of the object. -/
lemma passed_of_parent {need : Need} (hobject : need.object = 0) (howner : need.owner = false)
    (hpar : st.looks path call = true →
      st.canAccessParentDir proc path (permExec ||| need.parent) = true) :
    st.Passed proc path call tree child need where
  parent := hpar
  object := by
    intro index inode _
    rw [hobject, howner]
    exact ⟨grants_zero proc inode _, nofun⟩
  found := by
    rw [hobject, howner]
    simp

lemma passed_mkdir (hok : (st.mkdir proc path).1 = .ok value) :
    st.Passed proc path .mkdir tree child { parent := permWrite } := by
  unfold mkdir at hok
  split at hok
  next hacc => exact passed_of_parent rfl rfl fun _ => hacc
  · cases hok

lemma passed_rmdir (hok : (st.rmdir proc path).1 = .ok value) :
    st.Passed proc path .rmdir tree child { parent := permWrite } := by
  unfold rmdir at hok
  split at hok
  · cases hok
  · split at hok
    next hacc => exact passed_of_parent rfl rfl fun _ => hacc
    · cases hok

section Volume

variable (hplace : st.place path = some (slot, tree, child))

include hplace

/-- A call that has looked at the object that the path leads to. -/
lemma passed_of_lookup {slot' : Nat} {need : Need}
    (hfound : ∃ tree child, st.place path = some (slot', tree, child) ∧
      tree.lookup child = some (index, inode))
    (hpar : st.looks path call = true →
      st.canAccessParentDir proc path (permExec ||| need.parent) = true)
    (hgrants : Grants proc inode (effectiveMode inode) need.object)
    (howner : need.owner = true → proc.uid.toNat = inode.uid) :
    st.Passed proc path call tree child need := by
  obtain ⟨tree', child', hplace', hlook⟩ := hfound
  cases hplace.symm.trans hplace'
  refine ⟨hpar, fun hother => ?_, fun _ => by rw [hlook]; rfl⟩
  cases hlook.symm.trans hother
  exact ⟨hgrants, howner⟩

/-- What is there already is not created. -/
lemma vfsCreate_of_lookup (hsome : (tree.lookup child).isSome = true) :
    (st.vfsCreate path).1 = none := by
  unfold vfsCreate
  split
  · rfl
  next slot' tree' child' htgt =>
    cases hplace.symm.trans (place_of_target htgt)
    rw [if_pos hsome]

variable (huid : proc.uid ≠ 0#32)

include huid

lemma passed_opendir (hok : (st.opendir procSlot proc path).1 = .ok value) :
    st.Passed proc path .opendir tree child { object := permRead ||| permExec } := by
  unfold opendir at hok
  split at hok
  next slot' index inode hopen =>
    split at hok
    next hacc =>
      rw [Bool.and_eq_true] at hacc
      exact passed_of_lookup hplace (vfsOpendir_eq_some hopen) (fun _ => hacc.1)
        (canAccessNxfsNode_nxfs huid hacc.2) nofun
    · cases hok
  · cases hok

lemma passed_remove (hok : (st.remove proc path).1 = .ok value) :
    st.Passed proc path .remove tree child (st.need path tree child .remove) := by
  have hneed : st.need path tree child .remove =
      if (st.files.findNamed path).isSome then { parent := permWrite }
      else { parent := permWrite, object := permWrite } := rfl
  unfold remove at hok
  split at hok
  next hpipe =>
    rw [hneed, if_pos hpipe]
    exact passed_of_parent rfl rfl fun hlooks => by simp [looks, hpipe] at hlooks
  next hpipe =>
    rw [hneed, if_neg hpipe]
    split at hok
    · cases hok
    next slot' index inode hopen =>
      split at hok
      next hacc =>
        rw [Bool.and_eq_true] at hacc
        exact passed_of_lookup hplace (vfsOpen_eq_some hopen) (fun _ => hacc.2)
          (canAccessNxfsNode_nxfs huid hacc.1) nofun
      · cases hok

lemma passed_chmod {mode : Nat} (hok : (st.chmod proc path mode).1 = .ok value) :
    st.Passed proc path (.chmod mode) tree child { owner := true } := by
  unfold chmod at hok
  split at hok
  · cases hok
  split at hok
  · cases hok
  next slot' index' inode' hfound =>
    split at hok
    · cases hok
    next howner =>
      rw [not_and, not_not] at howner
      exact passed_of_lookup hplace (lookupNxfsNode_eq_some hfound) nofun (grants_zero proc _ _)
        fun _ => howner huid

lemma passed_openPath {flags : OpenFlags}
    (hok : (st.openPath procSlot proc path flags).1 = .ok value) :
    st.Passed proc path (.openPath flags) tree child
      (st.need path tree child (.openPath flags)) := by
  have hneed : st.need path tree child (.openPath flags) =
      if (st.files.findNamed path).isSome then {}
      else if (tree.lookup child).isSome then { object := flags.required }
      else { parent := permWrite } := rfl
  unfold openPath at hok
  split at hok
  next hpipe =>
    rw [hneed, if_pos hpipe]
    exact passed_of_parent rfl rfl fun hlooks => by simp [looks, hpipe] at hlooks
  next hpipe =>
    rw [if_neg hpipe] at hneed
    split at hok
    next slot' index inode hopen =>
      obtain ⟨tree', child', hplace', hlook⟩ := vfsOpen_eq_some hopen
      cases hplace.symm.trans hplace'
      rw [hneed, if_pos (by rw [hlook]; rfl)]
      unfold openFound at hok
      split at hok
      next hacc =>
        rw [Bool.and_eq_true] at hacc
        exact passed_of_lookup hplace ⟨tree, child, hplace, hlook⟩
          (fun _ => (or_zero permExec).symm ▸ hacc.1) (canAccessNxfsNode_nxfs huid hacc.2)
          nofun
      · cases hok
    · split at hok
      · unfold openCreated at hok
        split at hok
        next hacc =>
          have hmissing : ¬(tree.lookup child).isSome = true := fun hsome => by
            have hcreate := vfsCreate_of_lookup hplace hsome
            split at hok
            · cases hok
            next heq =>
              rw [heq] at hcreate
              cases hcreate
          rw [hneed, if_neg hmissing]
          exact passed_of_parent rfl rfl fun _ => hacc
        · cases hok
      · cases hok

lemma passed_perform (hok : (st.perform procSlot proc path call).1 = .ok value) :
    st.Passed proc path call tree child (st.need path tree child call) := by
  cases call with
  | openPath flags => exact passed_openPath hplace huid hok
  | opendir => exact passed_opendir hplace huid hok
  | mkdir => exact passed_mkdir hok
  | rmdir => exact passed_rmdir hok
  | remove => exact passed_remove hplace huid hok
  | mkfifo => exact passed_of_parent rfl rfl nofun
  | chmod mode => exact passed_chmod hplace huid hok

/-- What a call has made sure of, in terms of the walk along the path. -/
lemma Passed.checks {need : Need} (hpass : st.Passed proc path call tree child need) :
    Checks proc tree (segments slash child) need (st.checkedIn path call slot) where
  dir := by
    intro index inode hindex hholds
    unfold checkedIn at hindex
    split at hindex
    next hlooks =>
      obtain ⟨dir, hdir, rfl⟩ := map_eq_some_iff.mp hindex
      obtain ⟨hpar, hslot⟩ := filter_eq_some_iff.mp hdir
      rw [decide_eq_true_iff] at hslot
      subst hslot
      exact canAccessParentDir_grants huid (hpass.parent hlooks) hpar (volume_of_place hplace)
        hholds
    · cases hindex
  object := by
    intro index inode hwalk hholds
    by_cases hneed : need.object ≠ 0 ∨ need.owner = true
    · obtain ⟨⟨index', inode'⟩, hlook⟩ := isSome_iff_exists.mp (hpass.found hneed)
      cases holds_of_lookup hlook hwalk hholds
      exact hpass.object hlook
    · rw [not_or, not_not] at hneed
      rw [hneed.1]
      exact ⟨grants_zero proc inode _, fun howner => absurd howner hneed.2⟩

end Volume

/-- A call of a process that is not the super user, on a path of a volume, that
succeeds is permitted exactly if the directories that the service did not look at
grant what is needed, and the modes that it did look at have permissions. -/
theorem succeeded_permitted_iff (st : Service Dev) (procSlot : ProcSlot) (proc : Process)
    (path : List Char) (call : ServiceCall) (huid : proc.uid ≠ 0#32)
    (hplace : st.place path = some (slot, tree, child))
    (hok : (st.perform procSlot proc path call).1 = .ok value) :
    Permitted proc tree (segments slash child) (st.need path tree child call) ↔
      Covered proc tree (segments slash child) (st.need path tree child call)
        (st.checkedIn path call slot) :=
  ((passed_perform hplace huid hok).checks hplace huid).permitted_iff

end Calls

/-! ## A small volume -/

/-- A volume with a directory `a` in its root and a file `f` in it. -/
def smallTree (rootMode fileMode : Nat) : Tree where
  super := Nxfs.smallLayout.toSuper
  disk := (Nxfs.Volume.mounted (Nxfs.smallVolume 0x7f
    [{ Nxfs.plainInode typeDir 512 228 1 with mode := rootMode }, Nxfs.plainInode typeDir 512 229 1,
      { Nxfs.plainInode typeFile 0 230 1 with mode := fileMode }]
    fun block =>
      if block = 228 then Nxfs.zeroBlock.setEntry 0 1 [97]
      else if block = 229 then Nxfs.zeroBlock.setEntry 0 2 [102]
      else Nxfs.zeroBlock) 0).contents

def smallVfs : Vfs Unit := ⟨none, some ⟨(), 0⟩, .nxfs, 0, fun _ => none⟩

/-- A volume with a directory and a file. -/
def smallService (rootMode fileMode : Nat) : Service Unit where
  vfs := smallVfs
  volumes slot := if slot = 0 then some (smallTree rootMode fileMode) else none
  files := File.System.boot
  otherDirs _ := false

/-- A process without rights. -/
def guest : Process where
  uid := 5
  gid := 5
  caps := 0
  nextSpawnCaps := 0
  nextSpawnCapsSet := false
  identityStack := []
  depth_le := zero_le _

def smallPath : List Char := ['/', 'a', '/', 'f']

def smallNames : List (List UInt8) := [[97], [102]]

def readOnly : OpenFlags := { read := true }

/-- On a path of two segments there are two directories. -/
lemma smallNames_dirs {dirs rest : List (List UInt8)} {name : List UInt8}
    (hnames : smallNames = dirs ++ name :: rest) :
    (dirs = [] ∧ rest = [[102]]) ∨ (dirs = [[97]] ∧ rest = []) := by
  unfold smallNames at hnames
  rcases dirs with _ | ⟨first, _ | ⟨second, dirs⟩⟩
  · simp only [List.nil_append, List.cons.injEq] at hnames
    exact .inl ⟨rfl, hnames.2.symm⟩
  · simp only [List.cons_append, List.nil_append, List.cons.injEq] at hnames
    exact .inr ⟨by rw [hnames.1], hnames.2.2.symm⟩
  · simp at hnames

lemma place_smallPath (rootMode fileMode : Nat) :
    (smallService rootMode fileMode).place smallPath =
      some (0, smallTree rootMode fileMode, [97, 47, 102]) := by
  have hparse : smallVfs.parsePath smallPath =
      some { hasChild := true, mountKind := .nxfs, child := ['a', '/', 'f'] } := by decide +kernel
  rw [place, smallService, hparse]
  rfl

/-- The root and the file are open to all. -/
theorem succeeded_permitted_small :
    ((smallService 0o755 0o644).perform 0 guest smallPath (.openPath readOnly)).1 = .ok 3 ∧
      Permitted guest (smallTree 0o755 0o644) smallNames { object := permRead } := by
  have hok : ((smallService 0o755 0o644).perform 0 guest smallPath (.openPath readOnly)).1 =
      .ok 3 := by decide +kernel
  have hiff := succeeded_permitted_iff (smallService 0o755 0o644) 0 guest smallPath
    (.openPath readOnly) (by decide) (place_smallPath _ _) hok
  have hnames : PathText.segments slash [97, 47, 102] = smallNames := by decide
  have hneed : (smallService 0o755 0o644).need smallPath (smallTree 0o755 0o644) [97, 47, 102]
      (.openPath readOnly) = { object := permRead } := by decide +kernel
  have hdir : (smallTree 0o755 0o644).walk [[97]] = some 1 := by decide +kernel
  have hfile : (smallTree 0o755 0o644).walk smallNames = some 2 := by decide +kernel
  rw [hnames, hneed] at hiff
  refine ⟨hok, hiff.mpr ⟨?_, ?_, ?_⟩⟩
  · intro dirs name rest index inode hnames hwalk hholds _
    rw [hholds.stored]
    rcases smallNames_dirs hnames with ⟨rfl, rfl⟩ | ⟨rfl, rfl⟩
    · cases Option.some.inj hwalk
      decide +kernel
    · cases hdir.symm.trans hwalk
      decide +kernel
  · intro dirs name rest index inode hnames hwalk hholds _
    rw [hholds.stored]
    rcases smallNames_dirs hnames with ⟨rfl, rfl⟩ | ⟨rfl, rfl⟩
    · cases Option.some.inj hwalk
      decide +kernel
    · cases hdir.symm.trans hwalk
      decide +kernel
  · intro index inode _ hwalk hholds
    rw [hholds.stored]
    cases hfile.symm.trans hwalk
    decide +kernel

/-- The root is closed to the process, which reads a file below it all the same. And it
reads a file whose mode gives nobody any permission. -/
theorem succeeded_not_permitted :
    (((smallService 0o700 0o644).perform 0 guest smallPath (.openPath readOnly)).1 = .ok 3 ∧
      ¬Permitted guest (smallTree 0o700 0o644) smallNames { object := permRead }) ∧
    (((smallService 0o755 0).perform 0 guest smallPath (.openPath readOnly)).1 = .ok 3 ∧
      ¬Permitted guest (smallTree 0o755 0) smallNames { object := permRead }) := by
  refine ⟨⟨by decide +kernel, fun hperm => ?_⟩, by decide +kernel, fun hperm => ?_⟩
  · have hroot := @hperm.dirs [] [97] [[102]] 0 _ rfl rfl ⟨by decide, rfl, by decide +kernel⟩
    revert hroot
    decide +kernel
  · have hfile := (@hperm.object 2 _ (by decide +kernel) ⟨by decide, rfl, by decide +kernel⟩).1
    revert hfile
    decide +kernel

end Service

end NexOS.Vfs
