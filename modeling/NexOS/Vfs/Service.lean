import NexOS.File.Pipes
import NexOS.Nxfs.Layout
import NexOS.Vfs.Mounts

/-! # The file-system service

The calls that processes make on paths. The service resolves a path, compares what
the process may do with the modes of the nodes that it looks at, and then lets the
file system do the work. Modes exist on NXFS volumes only; the calls on paths of the
other file systems are left out, but a directory of one of them may stand above the
root of a volume.
-/

namespace NexOS.Vfs

open NexOS.Proc (MountKind Process)
open NexOS.Nxfs (Super Disk Inode FsM typeDir typeFile)
open NexOS.File (ProcSlot PipeEnd)

/-! ## Permissions -/

/-- `FS_SERVICE_NXFS_PERM_EXEC`, which on a directory allows to search it. -/
def permExec : Nat := 1

def permWrite : Nat := 2

def permRead : Nat := 4

def fileDefaultMode : Nat := 0o644

def dirDefaultMode : Nat := 0o755

/-- The mode that checks go by: a mode without permissions is replaced. -/
def effectiveMode (inode : Inode) : Nat :=
  let mode := inode.mode &&& 0o777
  if mode ≠ 0 then mode
  else if inode.type = typeDir then dirDefaultMode else fileDefaultMode

/-- The bits of a mode for the owner, the group or the others, whichever the process
is to the inode. -/
def classBits (proc : Process) (inode : Inode) (mode : Nat) : Nat :=
  if proc.uid.toNat = inode.uid then (mode >>> 6) &&& 7
  else if proc.gid.toNat = inode.gid then (mode >>> 3) &&& 7
  else mode &&& 7

/-- The permission bits grant all that is required. -/
def Grants (proc : Process) (inode : Inode) (mode required : Nat) : Prop :=
  classBits proc inode mode &&& required = required

instance (proc : Process) (inode : Inode) (mode required : Nat) :
    Decidable (Grants proc inode mode required) :=
  inferInstanceAs (Decidable (_ = _))

/-- What a path leads to: an inode of the NXFS volume in a slot, or a node of another
file system. -/
inductive Node where
  | nxfs (slot index : Nat) (inode : Inode)
  | other

/-- Root may do everything. -/
def canAccessNxfsNode (proc : Process) : Node → Nat → Bool
  | .other, _ => true
  | .nxfs _ _ inode, required =>
    decide (required = 0 ∨ proc.uid = 0#32 ∨ Grants proc inode (effectiveMode inode) required)

/-! ## Requests -/

/-- The flags of an open that the service reads. -/
structure OpenFlags where
  creat : Bool := false
  trunc : Bool := false
  append : Bool := false
  read : Bool := false
  write : Bool := false
  deriving DecidableEq, Repr

namespace OpenFlags

/-- The open can change the file. -/
def changes (flags : OpenFlags) : Bool := flags.creat || flags.trunc || flags.append

/-- `fs_service_map_file_access_flags`: whether the file is opened for reading and
for writing. -/
def access (flags : OpenFlags) : Bool × Bool :=
  if flags.read || flags.write then (flags.read, flags.write)
  else if flags.changes then (false, true) else (true, false)

/-- `fs_service_open_required_nxfs_permissions`. -/
def required (flags : OpenFlags) : Nat := (if flags.access.1 then permRead else 0) |||
    (if flags.access.2 || flags.changes then permWrite else 0)

end OpenFlags

/-- The errors of the calls on files. -/
inductive ServiceError where
  | failed
  | accessDenied
  deriving DecidableEq, Repr

/-- The loop of `fs_service_parent_path` from an index on: the index of the last
separator. -/
def lastSlashFrom : Nat → Nat → List Char → Nat
  | _, last, [] => last
  | i, last, c :: rest => lastSlashFrom (i + 1) (if c = '/' then i else last) rest

/-- `fs_service_parent_path`. A path that ends in a separator is its own parent but
for the separator. -/
def parentPath (path : List Char) : Option (List Char) :=
  let last := lastSlashFrom 0 0 path
  if last = 0 then some ['/']
  else if pathMax < last then none
  else some (path.take last)

def textBytes (text : List Char) : List UInt8 := text.map fun c => UInt8.ofNat c.toNat

/-! ## State -/

/-- A mounted NXFS volume. -/
structure Tree where
  super : Super
  disk : Disk

namespace Tree

/-- A program on the volume. -/
def exec {α : Type} (tree : Tree) (program : FsM α) : Option α × Tree :=
  let outcome := program.exec Disk.serve tree.disk
  (outcome.1, { tree with disk := outcome.2 })

/-- The inode at a path on the volume. -/
def lookup (tree : Tree) (path : List UInt8) : Option (Nat × Inode) :=
  (tree.exec (Nxfs.lookupPath tree.super path)).1

end Tree

/-- Mounts, the NXFS volumes by slot, pipes and descriptors, and which paths of the
other file systems are directories. -/
structure Service (Dev : Type) where
  vfs : Vfs Dev
  volumes : Nat → Option Tree
  files : File.System
  otherDirs : ParsedPath → Bool

variable {Dev : Type}

namespace Service

def setTree (st : Service Dev) (slot : Nat) (tree : Tree) : Service Dev :=
  { st with volumes := Function.update st.volumes slot (some tree) }

/-- The volume of a parsed path and the path on it. -/
def within (st : Service Dev) (parsed : ParsedPath) : Option (Nat × Tree × List UInt8) :=
  if parsed.mountKind = .nxfs ∧ (parsed.childIsRoot ∨ parsed.hasChild) then
    (st.volumes parsed.mountSlot).map fun tree =>
      (parsed.mountSlot, tree, if parsed.childIsRoot then [] else textBytes parsed.child)
  else none

/-- The volume that a path is on. -/
def place (st : Service Dev) (path : List Char) : Option (Nat × Tree × List UInt8) :=
  (st.vfs.parsePath path).bind st.within

/-- The place of something that is to be created or removed. -/
def target (st : Service Dev) (path : List Char) : Option (Nat × Tree × List UInt8) :=
  (st.vfs.parsePath path).bind fun parsed => if parsed.childIsRoot then none else st.within parsed

/-- The directory at a path. -/
def vfsOpendir (st : Service Dev) (path : List Char) : Option Node :=
  (st.vfs.parsePath path).bind fun parsed =>
    if parsed.rootDir then some .other
    else if parsed.mountKind ≠ .nxfs then if st.otherDirs parsed then some .other else none
    else (st.within parsed).bind fun (slot, tree, child) =>
      (tree.lookup child).bind fun (index, inode) =>
        if inode.type = typeDir then some (.nxfs slot index inode) else none

/-- `vfs_open` without the flag to create. -/
def vfsOpen (st : Service Dev) (path : List Char) : Option (Nat × Nat × Inode) :=
  (st.target path).bind fun (slot, tree, child) =>
    (tree.lookup child).bind fun (index, inode) =>
      if inode.type = typeFile then some (slot, index, inode) else none

/-- `vfs_open` with the flag to create, on a path that is not there. A path that is
there but cannot be opened is not created either. -/
def vfsCreate (st : Service Dev) (path : List Char) : Option (Nat × Nat × Inode) × Service Dev :=
  match st.target path with
  | none => (none, st)
  | some (slot, tree, child) =>
    if (tree.lookup child).isSome then (none, st)
    else
      match tree.exec (Nxfs.createPath tree.super child) with
      | (none, tree) => (none, st.setTree slot tree)
      | (some (index, inode), tree) => (some (slot, index, inode), st.setTree slot tree)

/-- The permissions on the directory that a path's last name is in. -/
def canAccessParentDir (st : Service Dev) (proc : Process) (path : List Char) (required : Nat) :
    Bool :=
  if required = 0 then true
  else
    match (parentPath path).bind st.vfsOpendir with
    | none => false
    | some parent => canAccessNxfsNode proc parent required

/-- The permission bits of a mode are replaced. -/
def withPerms (mode perms : Nat) : Nat := (mode &&& 0xfffff000) ||| (perms &&& 0o7777)

/-- `nxfs_set_inode_metadata` on the volume in a slot. -/
def setMetadata (st : Service Dev) (slot index : Nat) (inode : Inode) (mode uid gid : Nat) :
    Option Inode × Service Dev :=
  match st.volumes slot with
  | none => (none, st)
  | some tree =>
    let outcome := tree.exec (Nxfs.setInodeMetadata tree.super index inode mode uid gid)
    (outcome.1, st.setTree slot outcome.2)

/-- `fs_service_apply_created_nxfs_metadata`. -/
def applyCreatedMetadata (st : Service Dev) (proc : Process) (slot index : Nat) (inode : Inode)
    (mode : Nat) : Option Inode × Service Dev :=
  st.setMetadata slot index inode (withPerms inode.mode mode) proc.uid.toNat proc.gid.toNat

/-- A program at the place of a path. -/
def onTarget {α : Type} (st : Service Dev) (path : List Char)
    (program : Super → List UInt8 → FsM α) : Option α × Service Dev :=
  match st.target path with
  | none => (none, st)
  | some (slot, tree, child) =>
    let outcome := tree.exec (program tree.super child)
    (outcome.1, st.setTree slot outcome.2)

/-- `fs_service_open_node`: a descriptor for a node. -/
def openNode (st : Service Dev) (slot : ProcSlot) : Except ServiceError Nat × Service Dev :=
  match st.files.tableAlloc slot 3 with
  | none => (.error .failed, st)
  | some fd => (.ok fd.val, { st with files := st.files.openVfs slot })

/-! ## Calls -/

/-- A directory is made, if its parent can be written. -/
def mkdir (st : Service Dev) (proc : Process) (path : List Char) :
    Except ServiceError Nat × Service Dev :=
  if st.canAccessParentDir proc path (permWrite ||| permExec) then
    match st.onTarget path Nxfs.mkdirPath with
    | (none, st) => (.error .failed, st)
    | (some _, st) =>
      match st.vfsOpendir path with
      | some (.nxfs slot index inode) =>
        (.ok 0, (st.applyCreatedMetadata proc slot index inode dirDefaultMode).2)
      | _ => (.ok 0, st)
  else (.error .accessDenied, st)

/-- A directory is removed. -/
def rmdir (st : Service Dev) (proc : Process) (path : List Char) :
    Except ServiceError Nat × Service Dev :=
  match st.vfsOpendir path with
  | none => (.error .failed, st)
  | some _ =>
    if st.canAccessParentDir proc path (permWrite ||| permExec) then
      match st.onTarget path Nxfs.rmdirPath with
      | (none, st) => (.error .failed, st)
      | (some (), st) => (.ok 0, st)
    else (.error .accessDenied, st)

/-- Pipes have their names apart from the file systems, and are removed unasked. -/
def remove (st : Service Dev) (proc : Process) (path : List Char) :
    Except ServiceError Nat × Service Dev :=
  if (st.files.findNamed path).isSome then
    (.ok 0, { st with files := st.files.unlinkNamed path })
  else
    match st.vfsOpen path with
    | none => (.error .failed, st)
    | some (slot, index, inode) =>
      if canAccessNxfsNode proc (.nxfs slot index inode) permWrite &&
          st.canAccessParentDir proc path (permWrite ||| permExec) then
        match st.onTarget path Nxfs.unlinkPath with
        | (none, st) => (.error .failed, st)
        | (some (), st) => (.ok 0, st)
      else (.error .accessDenied, st)

/-- A named pipe, unless the path is in use. -/
def mkfifo (st : Service Dev) (path : List Char) : Except ServiceError Nat × Service Dev :=
  if (st.files.findNamed path).isSome ∨ (st.vfsOpen path).isSome then (.error .failed, st)
  else if path = [] ∨ st.files.findUnused.isNone then (.error .failed, st)
  else (.ok 0, { st with files := st.files.createNamed path })

/-- The file or directory at a path. -/
def lookupNxfsNode (st : Service Dev) (path : List Char) : Option (Nat × Nat × Inode) :=
  match st.vfsOpen path with
  | some found => some found
  | none =>
    match st.vfsOpendir path with
    | some (.nxfs slot index inode) => some (slot, index, inode)
    | _ => none

/-- Only the owner and root may change a mode. -/
def chmod (st : Service Dev) (proc : Process) (path : List Char) (mode : Nat) :
    Except ServiceError Nat × Service Dev :=
  if 0o7777 < mode then (.error .failed, st)
  else
    match st.lookupNxfsNode path with
    | none => (.error .failed, st)
    | some (slot, index, inode) =>
      if proc.uid ≠ 0#32 ∧ proc.uid.toNat ≠ inode.uid then (.error .accessDenied, st)
      else
        match st.setMetadata slot index inode (withPerms inode.mode mode) inode.uid inode.gid with
        | (none, st) => (.error .failed, st)
        | (some _, st) => (.ok 0, st)

/-- An open of a named pipe, which is for one direction. -/
def openPipe (st : Service Dev) (procSlot : ProcSlot) (path : List Char) (flags : OpenFlags) :
    Except ServiceError Nat × Service Dev :=
  if flags.read = flags.write then (.error .failed, st)
  else
    match st.files.tableAlloc procSlot 3 with
    | none => (.error .failed, st)
    | some fd =>
      (.ok fd.val, { st with
        files := st.files.openNamed procSlot path (if flags.write then .write else .read) })

/-- `vfs_prepare_opened_node`: cut the file down if asked. -/
def prepareOpened (st : Service Dev) (slot index : Nat) (inode : Inode) (flags : OpenFlags) :
    Option Unit × Service Dev :=
  match st.volumes slot with
  | none => (none, st)
  | some tree =>
    if flags.trunc ∧ inode.size ≠ 0 then
      match tree.exec (Nxfs.truncateInode tree.super index inode) with
      | (some (_, some ()), tree) => (some (), st.setTree slot tree)
      | (_, tree) => (none, st.setTree slot tree)
    else (some (), st)

/-- A file that exists is opened. -/
def openFound (st : Service Dev) (procSlot : ProcSlot) (proc : Process) (path : List Char)
    (flags : OpenFlags) (slot index : Nat) (inode : Inode) :
    Except ServiceError Nat × Service Dev :=
  if st.canAccessParentDir proc path permExec &&
      canAccessNxfsNode proc (.nxfs slot index inode) flags.required then
    match st.prepareOpened slot index inode flags with
    | (none, st) => (.error .failed, st)
    | (some (), st) => st.openNode procSlot
  else (.error .accessDenied, st)

/-- A file is created and opened. -/
def openCreated (st : Service Dev) (procSlot : ProcSlot) (proc : Process) (path : List Char)
    (flags : OpenFlags) : Except ServiceError Nat × Service Dev :=
  if st.canAccessParentDir proc path (permWrite ||| permExec) then
    match st.vfsCreate path with
    | (none, st) => (.error .failed, st)
    | (some (slot, index, inode), st) =>
      match st.applyCreatedMetadata proc slot index inode fileDefaultMode with
      | (none, st) => (.error .failed, st)
      | (some inode, st) => st.openFound procSlot proc path flags slot index inode
  else (.error .accessDenied, st)

/-- `fs_service_open`. No capability is asked for on a volume. -/
def openPath (st : Service Dev) (procSlot : ProcSlot) (proc : Process) (path : List Char)
    (flags : OpenFlags) : Except ServiceError Nat × Service Dev :=
  if (st.files.findNamed path).isSome then st.openPipe procSlot path flags
  else
    match st.vfsOpen path with
    | some (slot, index, inode) => st.openFound procSlot proc path flags slot index inode
    | none =>
      if flags.creat then st.openCreated procSlot proc path flags else (.error .failed, st)

/-- `fs_service_opendir`, on a directory of a volume. -/
def opendir (st : Service Dev) (procSlot : ProcSlot) (proc : Process) (path : List Char) :
    Except ServiceError Nat × Service Dev :=
  match st.vfsOpendir path with
  | some (.nxfs slot index inode) =>
    if st.canAccessParentDir proc path permExec &&
        canAccessNxfsNode proc (.nxfs slot index inode) (permRead ||| permExec) then
      st.openNode procSlot
    else (.error .accessDenied, st)
  | _ => (.error .failed, st)

end Service

/-- A call on a path. -/
inductive ServiceCall where
  | openPath (flags : OpenFlags)
  | opendir
  | mkdir
  | rmdir
  | remove
  | mkfifo
  | chmod (mode : Nat)
  deriving DecidableEq, Repr

/-- A call of a process. -/
def Service.perform (st : Service Dev) (procSlot : ProcSlot) (proc : Process) (path : List Char) :
    ServiceCall → Except ServiceError Nat × Service Dev
  | .openPath flags => st.openPath procSlot proc path flags
  | .opendir => st.opendir procSlot proc path
  | .mkdir => st.mkdir proc path
  | .rmdir => st.rmdir proc path
  | .remove => st.remove proc path
  | .mkfifo => st.mkfifo path
  | .chmod mode => st.chmod proc path mode

end NexOS.Vfs
