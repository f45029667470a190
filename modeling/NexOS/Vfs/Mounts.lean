import NexOS.Proc.Credentials

/-! # The mount table

The virtual file system has two built-in volumes, one for each kind of file
system, and four slots for volumes that are mounted while the system runs. A slot
keeps the last part of the target it was mounted at, and a path is resolved by
looking for a segment that is the name of a mount.
-/

namespace NexOS.Vfs

open NexOS.Proc (MountKind)

def nameMax : Nat := 255

def pathMax : Nat := 255

/-- The number of mounts besides the fixed ones. -/
abbrev mountSlotMax : Nat := 4

/-- The part of a block device that a file system was mounted from. -/
structure Volume (Dev : Type) where
  dev : Dev
  partitionLba : Nat
  deriving DecidableEq

/-- A mount at a name. -/
structure MountEntry (Dev : Type) where
  kind : MountKind
  name : List Char
  volume : Volume Dev
  deriving DecidableEq

end NexOS.Vfs

namespace NexOS

open NexOS.Proc (MountKind)
open NexOS.Vfs (Volume MountEntry mountSlotMax nameMax pathMax)

/-- The mount table. A root kind of `none` stands for no override of the root. -/
structure Vfs (Dev : Type) where
  fat32 : Option (Volume Dev)
  nxfs : Option (Volume Dev)
  rootKind : MountKind
  rootSlot : Nat
  mounts : Fin mountSlotMax → Option (MountEntry Dev)

namespace Vfs

/-- The errors of mount and umount. -/
inductive MountError where
  | badArgs
  | invalidTarget
  | reservedTarget
  | targetExists
  | noSlots
  | diskNotFound
  | partitionNotFound
  | fsDetect
  | unsupportedKind
  | fsMount
  | partitionRequired
  | targetBusy
  | targetNotFound
  deriving DecidableEq, Repr

/-- The mount that a path leads to, and the path on it. -/
structure ParsedPath where
  rootDir : Bool := false
  hasChild : Bool := false
  childIsRoot : Bool := false
  mountKind : MountKind := .none
  mountSlot : Nat := 0
  child : List Char := []
  deriving DecidableEq, Repr

/-- What the block layer and the file systems answer during one call. -/
structure Disks (Dev : Type) where
  get : Nat → Option Dev
  blockCount : Dev → Nat
  partitionGet : Dev → Nat → Option Nat
  probeSource : MountKind → Volume Dev → Bool
  acquireDevice : Dev → Bool
  mount : MountKind → Volume Dev → Bool
  flush : MountKind → Volume Dev → Bool

variable {Dev : Type}

/-! ## Names -/

def bootName : List Char := ['b', 'o', 'o', 't']

def fatName : List Char := ['f', 'a', 't']

def nxfsName : List Char := ['n', 'x', 'f', 's']

def devName : List Char := ['d', 'e', 'v']

def procName : List Char := ['p', 'r', 'o', 'c']

def eventName : List Char := ['e', 'v', 'e', 'n', 't']

/-- The root is not the default one. -/
def hasRootOverride (vfs : Vfs Dev) : Bool := vfs.rootKind ≠ .none

/-- The slot of a mount by its name. -/
def findDynamicMount (vfs : Vfs Dev) (name : List Char) : Option (Fin mountSlotMax) :=
  (List.finRange mountSlotMax).find? fun i => (vfs.mounts i).any fun entry => entry.name = name

def findFreeMountSlot (vfs : Vfs Dev) : Option (Fin mountSlotMax) :=
  (List.finRange mountSlotMax).find? fun i => (vfs.mounts i).isNone

/-- The mount that a segment of a path names, as kind and slot. -/
def segmentMount (vfs : Vfs Dev) (segment : List Char) : Option (MountKind × Nat) :=
  if segment = bootName ∨ segment = fatName then some (.fat32, 0)
  else if segment = nxfsName then some (.nxfs, 0)
  else if segment = devName then some (.devfs, 0)
  else if segment = procName then some (.procfs, 0)
  else if segment = eventName then some (.eventfs, 0)
  else (vfs.findDynamicMount segment).bind fun i =>
    (vfs.mounts i).map fun entry => (entry.kind, i.val + 1)

def copyName (text : List Char) : List Char := text.take pathMax

/-! ## Resolution of paths -/

/-- A path on a mount. -/
def entered (kind : MountKind) (slot : Nat) (remainder : List Char) : ParsedPath :=
  if remainder = [] then { childIsRoot := true, mountKind := kind, mountSlot := slot }
  else { hasChild := true, mountKind := kind, mountSlot := slot, child := copyName remainder }

/-- The mount that the root directory is. -/
def rootMount (vfs : Vfs Dev) : MountKind × Nat :=
  if vfs.hasRootOverride then (vfs.rootKind, vfs.rootSlot) else (.fat32, 0)

/-- A path on the root. -/
def rootChild (vfs : Vfs Dev) (child : List Char) : ParsedPath :=
  { hasChild := true, mountKind := vfs.rootMount.1, mountSlot := vfs.rootMount.2,
    child := copyName child }

def rootPath (vfs : Vfs Dev) : ParsedPath :=
  if vfs.hasRootOverride then
    { childIsRoot := true, mountKind := vfs.rootKind, mountSlot := vfs.rootSlot }
  else { rootDir := true, mountKind := .root }

/-- The segment at the cursor, as far as the buffer for it goes. -/
def segmentAt (cursor : List Char) : List Char :=
  (cursor.take nameMax).takeWhile fun c => decide (c ≠ '/')

def skipSlash : List Char → List Char
  | [] => []
  | c :: rest => if c = '/' then rest else c :: rest

lemma length_skipSlash_le (text : List Char) : (skipSlash text).length ≤ text.length := by
  cases text with
  | nil => exact le_rfl
  | cons c rest =>
    rw [skipSlash]
    split <;> simp

/-- The loop over the segments of an absolute path: the first segment that names a
mount decides, with the text after it. -/
def scanPath (vfs : Vfs Dev) : List Char → Option ParsedPath
  | [] => none
  | c :: rest =>
    if c = '/' then scanPath vfs rest
    else
      let segment := segmentAt (c :: rest)
      let segmentEnd := rest.drop (segment.length - 1)
      match vfs.segmentMount segment with
      | some (kind, slot) => some (entered kind slot (skipSlash segmentEnd))
      | none => if segmentEnd = [] then none else scanPath vfs (skipSlash segmentEnd)
termination_by cursor => cursor.length
decreasing_by
  · simp
  calc (skipSlash segmentEnd).length
      _ ≤ segmentEnd.length := length_skipSlash_le _
      _ ≤ rest.length := by simp [segmentEnd]
      _ < (c :: rest).length := Nat.lt_succ_self _

def parseRootChild : List Char → Option (List Char × List Char)
  | '/' :: rest =>
    if rest = [] then none
    else
      let name := segmentAt rest
      match rest.drop name.length with
      | [] => some (name, [])
      | c :: child => if c = '/' ∧ child.length ≤ pathMax then some (name, child) else none
  | _ => none

/-- `vfs_parse_path_for_vfs`. -/
def parsePath (vfs : Vfs Dev) (path : List Char) : Option ParsedPath :=
  if path = [] ∨ path = ['/'] then some vfs.rootPath
  else if path.head? ≠ some '/' then some (vfs.rootChild path)
  else
    match vfs.scanPath path.tail with
    | some parsed => some parsed
    | none => (parseRootChild path).map fun (segment, child) =>
      match vfs.segmentMount segment with
      | some (kind, slot) => entered kind slot child
      | none => vfs.rootChild path.tail

/-! ## Mounting -/

/-- The text after the last separator that is not at the end of the target. -/
def lastPart : List Char → List Char → List Char
  | last, [] => last
  | last, c :: rest => lastPart (if c = '/' ∧ rest ≠ [] then rest else last) rest

/-- The last name of a mount target. -/
def resolveMountTargetName (target : List Char) : Option (List Char) :=
  if target.head? ≠ some '/' ∨ target = ['/'] then none
  else
    let last := lastPart target target
    if last = [] ∨ last.head? = some '/' then none
    else
      let name := segmentAt last
      match last.drop name.length with
      | [] => some name
      | c :: _ => if c = '/' then some name else none

def reservedNames : List (List Char) := [devName, procName, bootName, fatName, nxfsName]

/-- The name and the slot of a new mount. -/
def prepareDynamicMountTarget (vfs : Vfs Dev) (target : List Char) :
    Except MountError (List Char × Fin mountSlotMax) :=
  match resolveMountTargetName target with
  | none => .error .invalidTarget
  | some name =>
    if name ∈ reservedNames then .error .reservedTarget
    else if (vfs.findDynamicMount name).isSome then .error .targetExists
    else
      match vfs.findFreeMountSlot with
      | none => .error .noSlots
      | some slot => .ok (name, slot)

def lbaMax : Nat := 0xffffffff

/-- A part index of `none` stands for the whole disk. -/
def resolveMountSource (disks : Disks Dev) (diskIndex : Nat) (partIndex : Option Nat) :
    Except MountError (Volume Dev) :=
  match disks.get diskIndex with
  | none => .error .diskNotFound
  | some dev =>
    match partIndex with
    | none => .ok ⟨dev, 0⟩
    | some part =>
      match disks.partitionGet dev part with
      | none => .error .partitionNotFound
      | some startLba =>
        if startLba ≤ lbaMax then .ok ⟨dev, startLba⟩ else .error .partitionNotFound

/-- The kind is found by probing. -/
def detectMountKind (disks : Disks Dev) (volume : Volume Dev) : Except MountError MountKind :=
  if disks.probeSource .nxfs volume then .ok .nxfs
  else if disks.probeSource .fat32 volume then .ok .fat32
  else .error .fsDetect

/-- Whether a kind of mount lies on a volume, as the two file systems do. -/
def isProvider (kind : MountKind) : Bool := kind = .fat32 ∨ kind = .nxfs

def requiresPartition (kind : MountKind) : Bool := kind = .nxfs

def storeMountEntry (vfs : Vfs Dev) (slot : Fin mountSlotMax) (entry : MountEntry Dev) : Vfs Dev :=
  { vfs with mounts := Function.update vfs.mounts slot (some entry) }

/-- A kind of `none` asks for the kind to be detected. -/
def chooseKind (disks : Disks Dev) (kind : MountKind) (volume : Volume Dev) :
    Except MountError MountKind :=
  if kind = .none then detectMountKind disks volume else .ok kind

/-- `vfs_mount_fs`. A failing call leaves the table as it was. -/
def mountFs (disks : Disks Dev) (vfs : Vfs Dev) (kind : MountKind) (diskIndex : Nat)
    (partIndex : Option Nat) (target : List Char) : Except MountError (Vfs Dev) := do
  let (name, slot) ← vfs.prepareDynamicMountTarget target
  let volume ← resolveMountSource disks diskIndex partIndex
  let kind ← chooseKind disks kind volume
  if !isProvider kind then throw .unsupportedKind
  if requiresPartition kind && partIndex.isNone then throw .partitionRequired
  if !disks.acquireDevice volume.dev then throw .diskNotFound
  if !disks.mount kind volume then throw .fsMount
  return vfs.storeMountEntry slot ⟨kind, name, volume⟩

/-- `vfs_mount_fs_at_lba`, which takes the volume's first block from the caller. -/
def mountFsAtLba (disks : Disks Dev) (vfs : Vfs Dev) (kind : MountKind) (diskIndex : Nat)
    (partitionLba : Nat) (target : List Char) : Except MountError (Vfs Dev) := do
  let (name, slot) ← vfs.prepareDynamicMountTarget target
  let some dev := disks.get diskIndex | throw .diskNotFound
  if disks.blockCount dev ≤ partitionLba then throw .diskNotFound
  let volume : Volume Dev := ⟨dev, partitionLba⟩
  let kind ← chooseKind disks kind volume
  if !isProvider kind then throw .unsupportedKind
  if !disks.acquireDevice dev then throw .diskNotFound
  if !disks.mount kind volume then throw .fsMount
  return vfs.storeMountEntry slot ⟨kind, name, volume⟩

/-- The slot that an unmount of the target looks at. -/
def targetSlot (vfs : Vfs Dev) (target : List Char) : Option (Fin mountSlotMax) :=
  (resolveMountTargetName target).bind vfs.findDynamicMount

/-- A mount that was added is taken away. -/
def umount (disks : Disks Dev) (vfs : Vfs Dev) (target : List Char) : Except MountError (Vfs Dev) :=
  match resolveMountTargetName target with
  | none => .error .invalidTarget
  | some name =>
    match vfs.findDynamicMount name with
    | none => .error .targetNotFound
    | some slot =>
      match vfs.mounts slot with
      | none => .error .targetNotFound
      | some entry =>
        if vfs.rootKind = entry.kind ∧ vfs.rootSlot = slot.val + 1 then .error .targetBusy
        else if !disks.flush entry.kind entry.volume then .error .targetBusy
        else .ok { vfs with mounts := Function.update vfs.mounts slot none }

/-! ## The root -/

/-- `vfs_set_root_mount`, which answers no for a target that is not the top of a
volume. -/
def setRootMount (vfs : Vfs Dev) (target : List Char) : Option (Vfs Dev) :=
  if target = ['/'] then some { vfs with rootKind := .none, rootSlot := 0 }
  else
    match vfs.parsePath target with
    | none => none
    | some parsed =>
      if parsed.rootDir || !parsed.childIsRoot || !isProvider parsed.mountKind then none
      else some { vfs with rootKind := parsed.mountKind, rootSlot := parsed.mountSlot }

def setBuiltin (vfs : Vfs Dev) (kind : MountKind) (volume : Option (Volume Dev)) : Vfs Dev :=
  { vfs with
    fat32 := if kind = .fat32 then volume else vfs.fat32
    nxfs := if kind = .fat32 then vfs.nxfs else volume }

/-- `vfs_mount_root_from_source`. Mounting clears the built-in volume first, so
that a mount that fails leaves none behind. -/
def mountRootFromSource (disks : Disks Dev) (vfs : Vfs Dev) (kind : MountKind)
    (volume : Volume Dev) : Except MountError Unit × Vfs Dev :=
  if !isProvider kind then (.error .unsupportedKind, vfs)
  else if !disks.acquireDevice volume.dev then (.error .diskNotFound, vfs)
  else if !disks.mount kind volume then (.error .fsMount, vfs.setBuiltin kind none)
  else (.ok (), { vfs.setBuiltin kind (some volume) with rootKind := kind, rootSlot := 0 })

/-- Another volume becomes the root. -/
def switchRootToSource (disks : Disks Dev) (vfs : Vfs Dev) (diskIndex : Nat)
    (partIndex : Option Nat) : Except MountError Unit × Vfs Dev :=
  match resolveMountSource disks diskIndex partIndex with
  | .error e => (.error e, vfs)
  | .ok volume =>
    match detectMountKind disks volume with
    | .error e => (.error e, vfs)
    | .ok kind => vfs.mountRootFromSource disks kind volume

/-! ## The volume of a mount -/

/-- The mount in a slot, counted from 1. -/
def slotEntry (vfs : Vfs Dev) (slot : Nat) : Option (MountEntry Dev) :=
  if h : slot - 1 < mountSlotMax then vfs.mounts ⟨slot - 1, h⟩ else none

/-- `vfs_get_mount_instance`: the volume that a kind and a slot stand for now. -/
def getMountInstance (vfs : Vfs Dev) (kind : MountKind) (slot : Nat) : Option (Volume Dev) :=
  if !isProvider kind then none
  else if slot = 0 then (if kind = .fat32 then vfs.fat32 else vfs.nxfs)
  else
    match vfs.slotEntry slot with
    | none => none
    | some entry => if entry.kind = kind then some entry.volume else none

/-- Some volume of the kind is mounted. -/
def mountReady (vfs : Vfs Dev) (kind : MountKind) : Bool :=
  if !isProvider kind then true
  else (if kind = .fat32 then vfs.fat32 else vfs.nxfs).isSome ||
    (List.finRange mountSlotMax).any fun i => (vfs.mounts i).any fun entry => entry.kind = kind

/-! ## What a call changes -/

variable {vfs vfs' : Vfs Dev} {disks : Disks Dev}
  {kind : MountKind} {target : List Char} {slot : Fin mountSlotMax}

lemma slotEntry_eq_some {n : Nat} {entry : MountEntry Dev} :
    vfs.slotEntry (n + 1) = some entry ↔ ∃ i : Fin mountSlotMax, n = i.val ∧
      vfs.mounts i = some entry := by
  rw [slotEntry, Nat.add_sub_cancel]
  by_cases hn : n < mountSlotMax
  · rw [dif_pos hn]
    exact ⟨fun hentry => ⟨⟨n, hn⟩, rfl, hentry⟩, by rintro ⟨i, rfl, hentry⟩; exact hentry⟩
  · rw [dif_neg hn]
    exact ⟨nofun, by rintro ⟨i, rfl, -⟩; exact absurd i.isLt hn⟩

/-- The volume of a kind and slot is the built-in one or that of an entry. -/
lemma getMountInstance_eq_some {slot : Nat} {volume : Volume Dev} :
    vfs.getMountInstance kind slot = some volume ↔ isProvider kind = true ∧
      ((slot = 0 ∧ (if kind = .fat32 then vfs.fat32 else vfs.nxfs) = some volume) ∨
        ∃ (i : Fin mountSlotMax) (entry : MountEntry Dev), slot = i.val + 1 ∧
          vfs.mounts i = some entry ∧ entry.kind = kind ∧ entry.volume = volume) := by
  unfold getMountInstance
  rcases hprov : isProvider kind with _ | _
  · simp
  cases slot with
  | zero => simp
  | succ n =>
    have hslot := @slotEntry_eq_some _ vfs n
    cases hentry : vfs.slotEntry (n + 1) with
    | none =>
      grind
    | some entry =>
      grind

/-- The built-in volume of one kind is replaced. -/
lemma getMountInstance_setBuiltin (hprov : isProvider kind = true) (new : Option (Volume Dev))
    (other : MountKind) (slot : Nat) : (vfs.setBuiltin kind new).getMountInstance other slot =
      if other = kind ∧ slot = 0 then new else vfs.getMountInstance other slot := by
  obtain rfl | rfl : kind = .fat32 ∨ kind = .nxfs := by simpa [isProvider] using hprov
  all_goals
    unfold setBuiltin getMountInstance isProvider
    split_ifs <;> simp_all [slotEntry]

/-- A check that ends a call with an error was passed by a call that succeeds. -/
lemma ite_error_eq_ok {ε α : Type*} {c : Prop} [Decidable c] {e : ε} {x : Except ε α} {a : α} :
    (if c then .error e else x) = .ok a ↔ ¬ c ∧ x = .ok a := by
  by_cases hc : c <;> simp [hc]

lemma prepareDynamicMountTarget_ok {name : List Char}
    (hprep : vfs.prepareDynamicMountTarget target = .ok (name, slot)) :
    resolveMountTargetName target = some name ∧ vfs.findDynamicMount name = none ∧
      vfs.findFreeMountSlot = some slot := by
  unfold prepareDynamicMountTarget at hprep
  rcases hname : resolveMountTargetName target with _ | found
  · simp [hname] at hprep
  rw [hname] at hprep
  dsimp only at hprep
  split at hprep
  · simp at hprep
  split at hprep
  · simp at hprep
  next _ hexists =>
    rcases hfree : vfs.findFreeMountSlot with _ | free
    · simp [hfree] at hprep
    rw [hfree] at hprep
    obtain ⟨rfl, rfl⟩ := hprep
    exact ⟨rfl, by simpa using hexists, rfl⟩

lemma mounts_findFreeMountSlot
    (hfree : vfs.findFreeMountSlot = some slot) : vfs.mounts slot = none := by
  simpa using List.find?_some hfree

/-- A mount that succeeds fills the slot that was found free. -/
lemma mountFs_ok {diskIndex : Nat} {partIndex : Option Nat}
    (hmount : mountFs disks vfs kind diskIndex partIndex target = .ok vfs') :
    ∃ slot entry, vfs.prepareDynamicMountTarget target = .ok (entry.name, slot) ∧
      resolveMountSource disks diskIndex partIndex = .ok entry.volume ∧
      chooseKind disks kind entry.volume = .ok entry.kind ∧
      vfs' = vfs.storeMountEntry slot entry := by
  unfold mountFs at hmount
  rcases hprep : vfs.prepareDynamicMountTarget target with e | prepared
  · simp [hprep, bind, Except.bind] at hmount
  rcases hsource : resolveMountSource disks diskIndex partIndex with e | volume
  · simp [hprep, hsource, bind, Except.bind] at hmount
  rcases hkind : chooseKind disks kind volume with e | mountedKind
  · simp [hprep, hsource, hkind, bind, Except.bind] at hmount
  simp [hprep, hsource, hkind, bind, Except.bind, throw, throwThe,
    MonadExceptOf.throw, pure, Except.pure, ite_error_eq_ok] at hmount
  obtain ⟨_, _, _, _, hstored⟩ := hmount
  exact ⟨prepared.2, ⟨mountedKind, prepared.1, volume⟩, rfl, rfl, hkind, hstored.symm⟩

lemma mountFsAtLba_ok {diskIndex partitionLba : Nat}
    (hmount : mountFsAtLba disks vfs kind diskIndex partitionLba target = .ok vfs') :
    ∃ slot entry, vfs.prepareDynamicMountTarget target = .ok (entry.name, slot) ∧
      disks.get diskIndex = some entry.volume.dev ∧ entry.volume.partitionLba = partitionLba ∧
      chooseKind disks kind entry.volume = .ok entry.kind ∧
      vfs' = vfs.storeMountEntry slot entry := by
  unfold mountFsAtLba at hmount
  rcases hprep : vfs.prepareDynamicMountTarget target with e | prepared
  · simp [hprep, bind, Except.bind] at hmount
  rcases hget : disks.get diskIndex with _ | dev
  · simp [hprep, hget, bind, Except.bind] at hmount
  cases hkind : chooseKind disks kind ⟨dev, partitionLba⟩ with
  | error e =>
    simp [hprep, hget, hkind, bind, Except.bind, throw, throwThe,
      MonadExceptOf.throw, ite_error_eq_ok] at hmount
  | ok mountedKind =>
    simp [hprep, hget, hkind, bind, Except.bind, throw, throwThe,
      MonadExceptOf.throw, pure, Except.pure, ite_error_eq_ok] at hmount
    obtain ⟨_, _, _, _, hstored⟩ := hmount
    exact ⟨prepared.2, ⟨mountedKind, prepared.1, dev, partitionLba⟩, rfl, rfl, rfl, hkind,
      hstored.symm⟩

/-- An unmount that succeeds empties the slot with the name of its target. -/
lemma umount_ok (humount : umount disks vfs target = .ok vfs') :
    ∃ slot, vfs.targetSlot target = some slot ∧
      vfs' = { vfs with mounts := Function.update vfs.mounts slot none } := by
  unfold umount at humount
  rcases hname : resolveMountTargetName target with _ | name
  · simp [hname] at humount
  rcases hslot : vfs.findDynamicMount name with _ | slot
  · simp [hname, hslot] at humount
  rcases hentry : vfs.mounts slot with _ | entry
  · simp [hname, hslot, hentry] at humount
  simp only [hname, hslot, hentry] at humount
  split at humount
  · simp at humount
  · split at humount
    · simp at humount
    · exact ⟨slot, by rw [targetSlot, hname, Option.bind_some, hslot], (Except.ok.inj humount).symm⟩

end Vfs

end NexOS
