import NexOS.Lib.Mask

/-! # Process credentials

The identity and capability fields of a process, the two system calls that
change them, and the three ways in which one process gives credentials to
another: spawn, fork and replacement of its image. A user id of zero overrides
the stored capabilities; every function that reads capabilities goes through
that override.
-/

namespace NexOS.Proc

/-- A machine word of the kernel's `uint32_t` fields. -/
abbrev Word := BitVec 32

/-- The capabilities of `enum process_capability`, in the order of their bits. -/
inductive Capability where
  | power
  | rawBlock
  | mount
  | signal
  | grant
  | audio
  | netRaw
  | display
  | input
  | clipboard
  | debug
  deriving DecidableEq, Repr

namespace Capability

/-- The bit of a capability. -/
def mask : Capability → Word
  | power => 1#32 <<< 0
  | rawBlock => 1#32 <<< 1
  | mount => 1#32 <<< 2
  | signal => 1#32 <<< 3
  | grant => 1#32 <<< 4
  | audio => 1#32 <<< 5
  | netRaw => 1#32 <<< 6
  | display => 1#32 <<< 7
  | input => 1#32 <<< 8
  | clipboard => 1#32 <<< 9
  | debug => 1#32 <<< 10

/-- `PROCESS_CAP_SYS_ADMIN`, the union of all capabilities. -/
def sysAdmin : Word :=
  power.mask ||| rawBlock.mask ||| mount.mask ||| signal.mask ||| grant.mask ||| audio.mask |||
    netRaw.mask ||| display.mask ||| input.mask ||| clipboard.mask ||| debug.mask

end Capability

open Capability (sysAdmin)

/-- How deep identities can be saved. -/
def identityStackMax : Nat := 8

/-- One saved identity. -/
structure IdentityContext where
  uid : Word
  gid : Word
  caps : Word
  deriving DecidableEq, Repr

/-- The credential fields of `struct process`. The saved identities are the
first `identity_depth` slots of the fixed array, innermost first, so their
number is bounded by the array's size. -/
structure Process where
  uid : Word
  gid : Word
  caps : Word
  nextSpawnCaps : Word
  nextSpawnCapsSet : Bool
  identityStack : List IdentityContext
  depth_le : identityStack.length ≤ identityStackMax
  deriving DecidableEq

namespace Process

/-- The effective capabilities: the super user holds all of them. -/
def capabilities (proc : Process) : Word :=
  if proc.uid = 0#32 then sysAdmin else proc.caps

/-- Only known capabilities are kept. -/
def setCapabilities (proc : Process) (caps : Word) : Process :=
  { proc with caps := caps &&& sysAdmin }

/-- Root has all capabilities. -/
def hasCapability (proc : Process) (cap : Word) : Bool :=
  if cap = 0#32 then false
  else if proc.uid = 0#32 then cap &&& sysAdmin == cap
  else proc.caps &&& cap == cap

def setIdentity (proc : Process) (uid gid : Word) : Process := { proc with uid := uid, gid := gid }

/-- The identity is saved, if there is room. -/
def identityPush (proc : Process) : Option Process :=
  if hroom : proc.identityStack.length < identityStackMax then
    some { proc with
      identityStack := ⟨proc.uid, proc.gid, proc.caps⟩ :: proc.identityStack
      depth_le := hroom }
  else none

/-- The identity that was saved last comes back. -/
def identityPop (proc : Process) : Option Process :=
  match hstack : proc.identityStack with
  | [] => none
  | saved :: rest =>
    some { proc with
      uid := saved.uid
      gid := saved.gid
      caps := saved.caps
      identityStack := rest
      depth_le := by
        have hdepth := proc.depth_le
        rw [hstack, List.length_cons] at hdepth
        omega }

/-- What the next child gets. -/
def nextSpawnCapabilities (proc : Process) (fallback : Word) : Word :=
  if proc.nextSpawnCapsSet then proc.nextSpawnCaps else fallback

def setNextSpawnCapabilities (proc : Process) (caps : Word) : Process :=
  { proc with nextSpawnCaps := caps &&& sysAdmin, nextSpawnCapsSet := true }

def clearNextSpawnCapabilities (proc : Process) : Process :=
  { proc with nextSpawnCaps := 0#32, nextSpawnCapsSet := false }

/-- The credentials `process_prepare_slot` gives a new process: the parent's
effective capabilities and identity, or those of the super user at boot. -/
def prepareSlot (parent : Option Process) : Process where
  uid := (parent.map uid).getD 0#32
  gid := (parent.map gid).getD 0#32
  caps := (parent.map capabilities).getD sysAdmin &&& sysAdmin
  nextSpawnCaps := 0#32
  nextSpawnCapsSet := false
  identityStack := []
  depth_le := Nat.zero_le _

end Process

/-! ## System calls -/

/-- The errors of the calls. -/
inductive Errno where
  | inval
  | acces
  | again
  deriving DecidableEq, Repr

/-- The operation codes of `SYS_CAPABILITY`. -/
inductive CapOp where
  | get
  | drop
  | grant
  | spawnSet
  | spawnClear
  | spawnGet
  | authGrant
  deriving DecidableEq, Repr

/-- `SYS_CAPABILITY`: the value or error returned to the caller, and the caller
afterwards. -/
def capability (proc : Process) (op : CapOp) (mask : Word) : Except Errno Word × Process :=
  if mask &&& ~~~sysAdmin ≠ 0#32 then (.error .inval, proc)
  else
    let current := proc.capabilities
    match op with
    | .get => (.ok current, proc)
    | .drop =>
      let next := proc.setCapabilities (current &&& ~~~mask)
      (.ok next.capabilities, next)
    | .grant =>
      if proc.hasCapability Capability.grant.mask then
        let next := proc.setCapabilities (current ||| mask)
        (.ok next.capabilities, next)
      else (.error .acces, proc)
    | .spawnSet =>
      if mask &&& ~~~current ≠ 0#32 then (.error .acces, proc)
      else
        let next := proc.setNextSpawnCapabilities mask
        (.ok (next.nextSpawnCapabilities current), next)
    | .spawnClear =>
      let next := proc.clearNextSpawnCapabilities
      (.ok next.capabilities, next)
    | .spawnGet =>
      (.ok (if proc.nextSpawnCapsSet then proc.nextSpawnCapabilities current else current), proc)
    | .authGrant =>
      if proc.uid ≠ 0#32 then (.error .acces, proc)
      else
        let next := proc.setCapabilities (current ||| mask)
        (.ok next.capabilities, next)

/-- The operation codes of `SYS_IDENTITY` that act on the caller. -/
inductive IdentityOp where
  | dropUser
  | authRoot
  | push
  | pop
  deriving DecidableEq, Repr

/-- `SYS_IDENTITY`. Giving up the super user clears the capabilities together
with the set kept for the next spawn. -/
def identity (proc : Process) (op : IdentityOp) (uid : Word) : Except Errno Unit × Process :=
  match op with
  | .dropUser =>
    if proc.uid ≠ 0#32 then (.error .acces, proc)
    else
      let uid := if uid = 0#32 then 1000#32 else uid
      (.ok (), ((proc.setIdentity uid uid).setCapabilities 0#32).clearNextSpawnCapabilities)
  | .authRoot =>
    if proc.uid ≠ 0#32 then (.error .acces, proc)
    else (.ok (), (proc.setIdentity 0#32 0#32).setCapabilities sysAdmin)
  | .push =>
    match proc.identityPush with
    | some next => (.ok (), next)
    | none => (.error .again, proc)
  | .pop =>
    match proc.identityPop with
    | some next => (.ok (), next)
    | none => (.error .inval, proc)

/-! ## Executable files -/

/-- What an open node is. -/
inductive NodeKind where
  | none
  | dir
  | file
  deriving DecidableEq, Repr

/-- The kinds of mounts. -/
inductive MountKind where
  | none
  | root
  | fat32
  | nxfs
  | devfs
  | procfs
  | eventfs
  deriving DecidableEq, Repr

/-- What starting a program reads of the node it was resolved to. Mode and
owner are those of the inode, and mean something on NXFS only. -/
structure ExecNode where
  kind : NodeKind
  mountKind : MountKind
  mode : Word
  uid : Word
  gid : Word
  deriving DecidableEq, Repr

namespace ExecNode

/-- The identity that a program on nxfs runs under. -/
def setuid (node : ExecNode) : Option (Word × Word) :=
  if node.kind ≠ .file ∨ node.mountKind ≠ .nxfs ∨ node.mode &&& 0o4000#32 = 0#32 then none
  else some (node.uid, node.gid)

/-- The capability mask stored in the upper half of the mode, if bit 31 says
that there is one. -/
def capPolicyMask (node : ExecNode) : Option Word :=
  if node.kind ≠ .file ∨ node.mountKind ≠ .nxfs then none
  else if node.mode &&& (1#32 <<< 31) = 0#32 then none
  else some ((node.mode >>> 16) &&& sysAdmin)

/-- The capabilities under the policy of a program. -/
def policyCapabilities (node : ExecNode) (baseCaps : Word) : Word :=
  match node.capPolicyMask with
  | some policy => baseCaps &&& sysAdmin &&& policy
  | none => baseCaps &&& sysAdmin

end ExecNode

/-! ## Starting programs -/

namespace Process

/-- Take over the owner of a set-uid file. The result is the new process and
the capabilities it starts from. -/
def applyExecIdentity (proc : Process) (node : ExecNode) (baseCaps : Word) : Process × Word :=
  match node.setuid with
  | none => (proc, baseCaps)
  | some (uid, gid) =>
    let saved := proc.identityPush.getD proc
    (saved.setIdentity uid gid, if uid = 0#32 then sysAdmin else baseCaps)

/-- The credentials of the process that `job_spawn_process` creates. -/
def spawnChild (parent : Process) (node : ExecNode) : Process :=
  let baseCaps := parent.nextSpawnCapabilities parent.capabilities
  let started := (prepareSlot (some parent)).applyExecIdentity node baseCaps
  started.1.setCapabilities (node.policyCapabilities started.2)

/-- `job_spawn_process`, with the outcomes that do not depend on credentials as
arguments: whether a slot is free, and whether the image is set up in it. The
parent's pending set is consumed as soon as the slot is taken. -/
def jobSpawn (parent : Process) (slotFree imageLoads : Bool) (node : ExecNode) :
    Option Process × Process :=
  if slotFree then
    (if imageLoads then some (parent.spawnChild node) else none, parent.clearNextSpawnCapabilities)
  else (none, parent)

/-- A fork copies the credentials. -/
def forkChild (parent : Process) : Process := prepareSlot (some parent)

/-- `process_exec_replace_from_user`, when the new image is entered. -/
def execReplace (proc : Process) (node : ExecNode) : Process :=
  let baseCaps :=
    match node.setuid with
    | some (uid, _) => if uid = 0#32 then sysAdmin else proc.capabilities
    | none => proc.capabilities
  let execCaps := node.policyCapabilities baseCaps
  let started :=
    match node.setuid with
    | some (uid, gid) => (proc.identityPush.getD proc).setIdentity uid gid
    | none => proc
  started.setCapabilities execCaps

/-- The credentials a process can come to have, from boot on. -/
inductive Reachable : Process → Prop
  | boot : Reachable (prepareSlot none)
  | capability {proc : Process} (op : CapOp) (mask : Word) (hproc : Reachable proc) :
      Reachable (capability proc op mask).2
  | identity {proc : Process} (op : IdentityOp) (uid : Word) (hproc : Reachable proc) :
      Reachable (identity proc op uid).2
  | spawner {proc : Process} (slotFree imageLoads : Bool) (node : ExecNode)
      (hproc : Reachable proc) : Reachable (proc.jobSpawn slotFree imageLoads node).2
  | spawned {proc child : Process} (slotFree imageLoads : Bool) (node : ExecNode)
      (hproc : Reachable proc) (hchild : (proc.jobSpawn slotFree imageLoads node).1 = some child) :
      Reachable child
  | forked {proc : Process} (hproc : Reachable proc) : Reachable proc.forkChild
  | replaced {proc : Process} (node : ExecNode) (hproc : Reachable proc) :
      Reachable (proc.execReplace node)

end Process

end NexOS.Proc
