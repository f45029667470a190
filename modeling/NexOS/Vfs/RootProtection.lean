import NexOS.Vfs.Mounts
import NexOS.Block.Lifecycle
import NexOS.Lib.GuardedRuns

/-! # Protection of the root device

The device under the root file system is marked as protected, so that it is not taken
away. `vfs_set_root_mount` moves the mark from the device of the old root to that of the
new one. `vfs_mount_root_from_source` takes the mark from the device that was last
mounted with the same kind of file system, which is the device of the old root only if
that root was of this kind and built in. Both go by the references to devices, which
stay when a mount that fails takes a volume away, and which name no device when there is
no override, where the root is the built-in FAT32 volume.
-/

namespace NexOS.Vfs

open NexOS.Proc (MountKind)
open NexOS.Block (Registry)
open GuardedRuns

/-- The mount table, the references that the built-in volumes hold on their devices
(`fat32_bdev_ref`, `nxfs_bdev_ref`), and the devices. -/
structure RootState (Dev : Type) where
  vfs : Vfs Dev
  fat32Ref : Option Dev
  nxfsRef : Option Dev
  registry : Registry Dev

variable {Dev : Type} [DecidableEq Dev]

namespace RootState

/-- The device held for a fixed mount. -/
def builtinRef (s : RootState Dev) (kind : MountKind) : Option Dev :=
  if kind = .fat32 then s.fat32Ref else s.nxfsRef

def setBuiltinRef (s : RootState Dev) (kind : MountKind) (dev : Dev) : RootState Dev :=
  { s with
    fat32Ref := if kind = .fat32 then some dev else s.fat32Ref
    nxfsRef := if kind = .fat32 then s.nxfsRef else some dev }

/-- The device that the kernel takes for that of the root. -/
def rootBlockdev (s : RootState Dev) : Option Dev :=
  if !isProvider s.vfs.rootKind then none
  else if s.vfs.rootSlot = 0 then s.builtinRef s.vfs.rootKind
  else (s.vfs.slotEntry s.vfs.rootSlot).map fun entry => entry.volume.dev

/-- The device of the volume that paths from the root lead to. -/
def rootDevice (s : RootState Dev) : Option Dev :=
  (s.vfs.getMountInstance s.vfs.rootMount.1 s.vfs.rootMount.2).map Volume.dev

/-- The device is marked as that of the root. -/
def isProtected (s : RootState Dev) (dev : Dev) : Bool := (s.registry.info dev).rootfsProtected

/-- `blockdev_set_rootfs_protected`, which ignores a null device. The call is made if the
condition holds. -/
def setProtected (s : RootState Dev) (dev : Option Dev) (protect cond : Bool) : RootState Dev :=
  { s with registry := match dev with
    | none => s.registry
    | some dev => if cond then s.registry.setRootfsProtected dev protect else s.registry }

/-- The volume of a fixed mount is replaced. -/
def mountRootFromSource (disks : Disks Dev) (s : RootState Dev) (kind : MountKind)
    (volume : Volume Dev) : RootState Dev :=
  let oldDev := s.builtinRef kind
  let replacing := s.vfs.rootKind = kind && s.vfs.rootSlot = 0
  match s.vfs.mountRootFromSource disks kind volume with
  | (.error _, vfs) => { s with vfs := vfs }
  | (.ok (), vfs) =>
    let other := oldDev ≠ none && oldDev ≠ some volume.dev
    let s := s.setProtected oldDev false (replacing && other)
    let s := { s.setBuiltinRef kind volume.dev with vfs := vfs }
    let s := s.setProtected oldDev false other
    s.setProtected (some volume.dev) true true

/-- The volume for a new root. -/
def switchSource (disks : Disks Dev) (diskIndex : Nat) (partIndex : Option Nat) :
    Option (MountKind × Volume Dev) :=
  match resolveMountSource disks diskIndex partIndex with
  | .error _ => none
  | .ok volume =>
    match detectMountKind disks volume with
    | .error _ => none
    | .ok kind => some (kind, volume)

/-- Another volume becomes the root. -/
def switchRootToSource (disks : Disks Dev) (s : RootState Dev) (diskIndex : Nat)
    (partIndex : Option Nat) : RootState Dev :=
  match switchSource disks diskIndex partIndex with
  | none => s
  | some (kind, volume) => s.mountRootFromSource disks kind volume

/-- Another mount becomes the root. -/
def setRootMount (s : RootState Dev) (target : List Char) : RootState Dev :=
  match s.vfs.setRootMount target with
  | none => s
  | some vfs =>
    let oldRoot := s.rootBlockdev
    let s := { s with vfs := vfs }
    if target = ['/'] then s.setProtected oldRoot false true
    else
      let newRoot := s.rootBlockdev
      let s := s.setProtected oldRoot false (oldRoot ≠ none && oldRoot ≠ newRoot)
      s.setProtected newRoot true true

def setVfs (s : RootState Dev) : Except MountError (Vfs Dev) → RootState Dev
  | .error _ => s
  | .ok vfs => { s with vfs := vfs }

end RootState

/-- Calls that change the root or the mounts. The search for a volume by its UUID is
given by what it finds. -/
inductive RootCall (Dev : Type) where
  | mountRoot (disks : Disks Dev) (kind : MountKind) (volume : Volume Dev)
  | switchRoot (disks : Disks Dev) (diskIndex : Nat) (partIndex : Option Nat)
  | switchRootToNxfsUuid (disks : Disks Dev) (found : Option (Nat × Option Nat))
  | setRoot (target : List Char)
  | mount (disks : Disks Dev) (kind : MountKind) (diskIndex : Nat) (partIndex : Option Nat)
      (target : List Char)
  | mountAtLba (disks : Disks Dev) (kind : MountKind) (diskIndex partitionLba : Nat)
      (target : List Char)
  | umount (disks : Disks Dev) (target : List Char)

namespace RootState

/-- A call on the root. -/
def perform (s : RootState Dev) : RootCall Dev → RootState Dev
  | .mountRoot disks kind volume => s.mountRootFromSource disks kind volume
  | .switchRoot disks diskIndex partIndex => s.switchRootToSource disks diskIndex partIndex
  | .switchRootToNxfsUuid _ none => s
  | .switchRootToNxfsUuid disks (some (diskIndex, partIndex)) =>
    s.switchRootToSource disks diskIndex partIndex
  | .setRoot target => s.setRootMount target
  | .mount disks kind diskIndex partIndex target =>
    s.setVfs (mountFs disks s.vfs kind diskIndex partIndex target)
  | .mountAtLba disks kind diskIndex partitionLba target =>
    s.setVfs (mountFsAtLba disks s.vfs kind diskIndex partitionLba target)
  | .umount disks target => s.setVfs (Vfs.umount disks s.vfs target)

/-- The root has no device, or the one that is to be mounted, or the one that was last
mounted with this kind of file system. -/
def Replaces (s : RootState Dev) (kind : MountKind) (volume : Volume Dev) : Prop :=
  ∀ root ∈ s.rootDevice, root = volume.dev ∨ s.builtinRef kind = some root

instance (s : RootState Dev) (kind : MountKind) (volume : Volume Dev) :
    Decidable (s.Replaces kind volume) :=
  inferInstanceAs (Decidable (∀ root ∈ _, _ ∨ _))

/-- A root is only mounted in place of one whose device loses its mark then, and a mount
that fails does not take the volume of the root away. -/
def Remounts (s : RootState Dev) (disks : Disks Dev) (kind : MountKind)
    (volume : Volume Dev) : Prop :=
  isProvider kind = true → disks.acquireDevice volume.dev = true →
    if disks.mount kind volume then s.Replaces kind volume
    else s.vfs.rootMount = (kind, 0) → s.vfs.getMountInstance kind 0 = none

instance (s : RootState Dev) (disks : Disks Dev) (kind : MountKind) (volume : Volume Dev) :
    Decidable (s.Remounts disks kind volume) :=
  inferInstanceAs (Decidable (_ → _ → ite _ _ _))

/-- The override is not taken away from over a FAT32 volume, and no built-in volume becomes
the root that a mount has taken away. -/
def Fits (s : RootState Dev) : RootCall Dev → Prop
  | .mountRoot disks kind volume => s.Remounts disks kind volume
  | .switchRoot disks diskIndex partIndex =>
    ∀ source ∈ switchSource disks diskIndex partIndex, s.Remounts disks source.1 source.2
  | .switchRootToNxfsUuid disks found => ∀ place ∈ found,
      ∀ source ∈ switchSource disks place.1 place.2, s.Remounts disks source.1 source.2
  | .setRoot target =>
    if target = ['/'] then s.vfs.fat32 = none
    else ∀ vfs ∈ s.vfs.setRootMount target, vfs.rootSlot = 0 →
      vfs.getMountInstance vfs.rootKind 0 = none → s.builtinRef vfs.rootKind = none
  | _ => True

instance (s : RootState Dev) : (call : RootCall Dev) → Decidable (s.Fits call)
  | .mountRoot .. => inferInstanceAs (Decidable (Remounts ..))
  | .switchRoot .. => inferInstanceAs (Decidable (∀ source ∈ _, _))
  | .switchRootToNxfsUuid .. => inferInstanceAs (Decidable (∀ place ∈ _, _))
  | .setRoot _ => inferInstanceAs (Decidable (ite _ _ _))
  | .mount .. | .mountAtLba .. | .umount .. => inferInstanceAs (Decidable True)

/-! ## Marks -/

variable {s : RootState Dev} {dev other : Dev}
  {vfs : Vfs Dev} {kind : MountKind} {i : Fin mountSlotMax}

lemma rootfsProtected_setRootfsProtected (registry : Registry Dev) (dev other : Dev)
    (protect : Bool) :
    ((registry.setRootfsProtected dev protect).info other).rootfsProtected =
      if other = dev then protect else (registry.info other).rootfsProtected := by
  unfold Registry.setRootfsProtected
  by_cases hother : other = dev
  · subst hother
    dsimp only
    split <;> simp [Registry.setInfo, Registry.restore]
  · dsimp only
    split <;> simp [Registry.setInfo, hother]

lemma isProtected_setProtected (s : RootState Dev) (dev : Option Dev) (protect cond : Bool)
    (other : Dev) : (s.setProtected dev protect cond).isProtected other =
      if dev = some other ∧ cond = true then protect else s.isProtected other := by
  rcases dev with _ | dev
  · rfl
  cases cond
  · rw [if_neg (by simp)]
    rfl
  simp only [setProtected, isProtected, if_true, rootfsProtected_setRootfsProtected]
  exact if_congr (by simp [eq_comm]) rfl rfl

/-! ## The invariant -/

/-- The marked devices are those under the root, a root in a slot is mounted, and the references
name the devices of the built-in volumes and of the root. -/
structure RootProtected (s : RootState Dev) : Prop where
  marked : ∀ dev, s.isProtected dev = true ↔ s.rootBlockdev = some dev
  mounted : s.vfs.rootSlot ≠ 0 →
    ∃ entry, s.vfs.slotEntry s.vfs.rootSlot = some entry ∧ entry.kind = s.vfs.rootKind
  refs : ∀ kind volume, s.vfs.getMountInstance kind 0 = some volume →
    s.builtinRef kind = some volume.dev
  agrees : s.rootBlockdev = s.rootDevice

section

omit [DecidableEq Dev]

/-- The slot has a mount of this kind. -/
def MountedAt (vfs : Vfs Dev) (kind : MountKind) (slot : Nat) : Prop :=
  slot ≠ 0 → ∃ entry, vfs.slotEntry slot = some entry ∧ entry.kind = kind

lemma mountedAt_segmentMount {segment : List Char} {slot : Nat}
    (hmount : vfs.segmentMount segment = some (kind, slot)) : MountedAt vfs kind slot := by
  intro hslot
  unfold segmentMount at hmount
  split at hmount
  · simp_all
  split at hmount
  · simp_all
  split at hmount
  · simp_all
  split at hmount
  · simp_all
  split at hmount
  · simp_all
  obtain ⟨i, -, hslotEntry⟩ := Option.bind_eq_some_iff.mp hmount
  obtain ⟨entry, hentry, heq⟩ := Option.map_eq_some_iff.mp hslotEntry
  cases heq
  exact ⟨entry, slotEntry_eq_some.mpr ⟨i, rfl, hentry⟩, rfl⟩

lemma entered_mount (kind : MountKind) (slot : Nat) (remainder : List Char) :
    (entered kind slot remainder).mountKind = kind ∧
      (entered kind slot remainder).mountSlot = slot := by
  unfold entered
  split <;> exact ⟨rfl, rfl⟩

lemma mountedAt_scanPath {cur : List Char} {parsed : ParsedPath}
    (hparse : vfs.scanPath cur = some parsed) :
    MountedAt vfs parsed.mountKind parsed.mountSlot := by
  fun_induction scanPath vfs cur with
  | case1 => cases hparse
  | case2 rest ih => exact ih hparse
  | case3 c rest hslash segment segmentEnd kind slot hmount =>
    cases hparse
    rw [(entered_mount ..).1, (entered_mount ..).2]
    exact mountedAt_segmentMount hmount
  | case4 => cases hparse
  | case5 c rest hslash segment segmentEnd hmount hend ih => exact ih hparse

/-- A path that names the top of a mount names one that exists. -/
lemma mountedAt_parsePath (hroot : MountedAt vfs vfs.rootKind vfs.rootSlot) {path : List Char}
    {parsed : ParsedPath} (hparse : vfs.parsePath path = some parsed)
    (hchild : parsed.childIsRoot = true) : MountedAt vfs parsed.mountKind parsed.mountSlot := by
  unfold parsePath at hparse
  split at hparse
  · cases hparse
    unfold rootPath at hchild ⊢
    split
    · exact hroot
    next hoverride => simp [hoverride] at hchild
  split at hparse
  · cases hparse
    simp [rootChild] at hchild
  split at hparse
  next found hfound =>
    cases hparse
    exact mountedAt_scanPath hfound
  obtain ⟨⟨segment, child⟩, -, hres⟩ := Option.map_eq_some_iff.mp hparse
  dsimp only at hres
  split at hres
  next kind slot hmount =>
    rw [← hres, (entered_mount ..).1, (entered_mount ..).2]
    exact mountedAt_segmentMount hmount
  · rw [← hres] at hchild
    simp [rootChild] at hchild

/-- Under an override, the reference and the volume of the root decide whether they agree. -/
lemma agrees_of_provider (hprov : isProvider s.vfs.rootKind = true)
    (hmounted : MountedAt s.vfs s.vfs.rootKind s.vfs.rootSlot)
    (hbuiltin : s.vfs.rootSlot = 0 → s.builtinRef s.vfs.rootKind =
      (s.vfs.getMountInstance s.vfs.rootKind 0).map Volume.dev) :
    s.rootBlockdev = s.rootDevice := by
  have hover : s.vfs.hasRootOverride = true := by
    rw [hasRootOverride, decide_eq_true_eq]
    intro hnone
    rw [hnone] at hprov
    cases hprov
  rw [rootBlockdev, if_neg (by simp [hprov]), rootDevice, rootMount, if_pos hover]
  split
  next hslot => rw [hbuiltin hslot, hslot]
  next hslot =>
    obtain ⟨entry, hentry, hkind⟩ := hmounted hslot
    rw [getMountInstance, if_neg (by simp [hprov]), if_neg hslot, hentry]
    simp [hkind]

lemma builtinRef_setBuiltinRef (s : RootState Dev) (kind other : MountKind) (dev : Dev) :
    (s.setBuiltinRef kind dev).builtinRef other =
      if other = .fat32 ↔ kind = .fat32 then some dev else s.builtinRef other := by
  unfold setBuiltinRef builtinRef
  split_ifs <;> simp_all

end

/-! ## Calls that move the root -/

/-- The marks after a root was mounted: the device that was mounted with this kind
before loses its mark, the new device gets one. -/
lemma isProtected_mountRootFromSource {disks : Disks Dev} {volume : Volume Dev}
    (hmount : s.vfs.mountRootFromSource disks kind volume = (.ok (), vfs)) (dev : Dev) :
    (s.mountRootFromSource disks kind volume).isProtected dev =
      if dev = volume.dev then true
      else if s.builtinRef kind = some dev then false else s.isProtected dev := by
  simp only [RootState.mountRootFromSource, hmount]
  rw [isProtected_setProtected]
  by_cases hnew : dev = volume.dev
  · rw [if_pos (by simp [hnew]), if_pos hnew]
  rw [if_neg (by simpa using Ne.symm hnew), if_neg hnew, isProtected_setProtected]
  by_cases hold : s.builtinRef kind = some dev
  · rw [if_pos (by simp [hold, hnew]), if_pos hold]
  · rw [if_neg (by simp [hold]), if_neg hold]
    exact (isProtected_setProtected s _ _ _ dev).trans (if_neg (by simp [hold]))

variable (hs : s.RootProtected)

include hs

omit [DecidableEq Dev] in
/-- A mount that fails may take a built-in volume away, but not that of the root. -/
lemma RootProtected.setBuiltin_none (hprov : isProvider kind = true)
    (hroot : s.vfs.rootMount = (kind, 0) → s.vfs.getMountInstance kind 0 = none) :
    RootProtected { s with vfs := s.vfs.setBuiltin kind none } := by
  refine ⟨hs.marked, hs.mounted, fun other volume hvolume => hs.refs other volume ?_, ?_⟩
  · replace hvolume := (getMountInstance_setBuiltin hprov none other 0).symm.trans hvolume
    split at hvolume
    · cases hvolume
    · exact hvolume
  · refine hs.agrees.trans (congrArg (Option.map Volume.dev) ?_)
    refine Eq.trans ?_ (getMountInstance_setBuiltin hprov none _ _).symm
    split
    next hhere =>
      have hmount : s.vfs.rootMount = (kind, 0) := Prod.ext hhere.1 hhere.2
      rw [hmount]
      exact hroot hmount
    · rfl

lemma RootProtected.mountRootFromSource (disks : Disks Dev)
    {volume : Volume Dev} (hfits : s.Remounts disks kind volume) :
    (s.mountRootFromSource disks kind volume).RootProtected := by
  by_cases hprov : isProvider kind = true
  swap
  · simpa [RootState.mountRootFromSource, Vfs.mountRootFromSource, hprov] using hs
  by_cases hacq : disks.acquireDevice volume.dev = true
  swap
  · simpa [RootState.mountRootFromSource, Vfs.mountRootFromSource, hprov, hacq] using hs
  have hcond := hfits hprov hacq
  by_cases hdone : disks.mount kind volume = true
  swap
  · rw [if_neg hdone] at hcond
    simpa [RootState.mountRootFromSource, Vfs.mountRootFromSource, hprov, hacq, hdone] using
      hs.setBuiltin_none hprov hcond
  rw [if_pos hdone] at hcond
  have hres : s.vfs.mountRootFromSource disks kind volume = (.ok (),
      { s.vfs.setBuiltin kind (some volume) with rootKind := kind, rootSlot := 0 }) := by
    simp [Vfs.mountRootFromSource, hprov, hacq, hdone]
  have hmarks := isProtected_mountRootFromSource hres
  have hinstance := @getMountInstance_setBuiltin _ s.vfs kind hprov (some volume)
  obtain ⟨hvfs, hrefs⟩ : (s.mountRootFromSource disks kind volume).vfs =
      { s.vfs.setBuiltin kind (some volume) with rootKind := kind, rootSlot := 0 } ∧
      ∀ other, (s.mountRootFromSource disks kind volume).builtinRef other =
        (s.setBuiltinRef kind volume.dev).builtinRef other := by
    simp only [RootState.mountRootFromSource, hres]
    exact ⟨rfl, fun _ => rfl⟩
  generalize s.mountRootFromSource disks kind volume = t at hmarks hvfs hrefs ⊢
  have hroot : t.rootBlockdev = some volume.dev := by
    simp only [rootBlockdev, hvfs, hprov, hrefs, builtinRef_setBuiltinRef]
    simp
  refine ⟨fun dev => ?_, fun hslot => absurd (by rw [hvfs]) hslot, fun other found hfound => ?_, ?_⟩
  · rw [hmarks, hroot, Option.some.injEq]
    by_cases hnew : dev = volume.dev
    · simp [hnew]
    rw [if_neg hnew]
    refine iff_of_false (fun hprot => ?_) (Ne.symm hnew)
    split at hprot
    · cases hprot
    next hold =>
      rcases hcond dev (hs.agrees ▸ (hs.marked dev).mp hprot) with heq | href
      · exact hnew heq
      · exact hold href
  · rw [hvfs] at hfound
    rw [hrefs, builtinRef_setBuiltinRef]
    replace hfound := (hinstance other 0).symm.trans hfound
    split at hfound
    next hhere => rw [if_pos (by rw [hhere.1]), Option.some.inj hfound]
    next hhere =>
      have hother : isProvider other = true := (getMountInstance_eq_some.mp hfound).1
      rw [if_neg ?_, hs.refs other found hfound]
      revert hprov hother hhere
      clear * -
      cases other <;> cases kind <;> decide
  · rw [hroot, rootDevice, hvfs]
    refine (congrArg (Option.map Volume.dev) ((hinstance _ _).trans (if_pos ?_))).symm
    cases kind <;> first | exact ⟨rfl, rfl⟩ | cases hprov

lemma RootProtected.switchRootToSource {disks : Disks Dev} {diskIndex : Nat}
    {partIndex : Option Nat}
    (hfits : ∀ source ∈ switchSource disks diskIndex partIndex,
      s.Remounts disks source.1 source.2) :
    (s.switchRootToSource disks diskIndex partIndex).RootProtected := by
  unfold RootState.switchRootToSource
  split
  · exact hs
  next kind volume hsource => exact hs.mountRootFromSource disks (hfits _ hsource)

lemma RootProtected.setRootMount {target : List Char} (hfits : s.Fits (.setRoot target)) :
    (s.setRootMount target).RootProtected := by
  unfold RootState.setRootMount
  rw [Fits] at hfits
  split
  · exact hs
  next vfs hset =>
  rw [hset] at hfits
  unfold Vfs.setRootMount at hset
  split at hset <;> rename_i htgt
  · -- without an override the root has no reference
    cases hset
    rw [if_pos htgt] at hfits ⊢
    refine ⟨fun dev => ?_, fun hslot => absurd rfl hslot, hs.refs,
      (congrArg (Option.map Volume.dev) hfits).symm⟩
    rw [isProtected_setProtected]
    refine iff_of_false ?_ nofun
    split
    · simp
    next hold => exact fun hprot => hold ⟨(hs.marked dev).mp hprot, rfl⟩
  rw [if_neg htgt] at hfits ⊢
  replace hfits := hfits vfs rfl
  split at hset
  · cases hset
  next parsed hparse =>
  split at hset
  · cases hset
  next hcheck =>
  cases hset
  have hmounted : MountedAt s.vfs parsed.mountKind parsed.mountSlot :=
    mountedAt_parsePath hs.mounted hparse (by simp_all)
  refine ⟨fun dev => ?_, hmounted, hs.refs, ?_⟩
  · change _ ↔ rootBlockdev { s with
      vfs := { s.vfs with rootKind := parsed.mountKind, rootSlot := parsed.mountSlot } } = some dev
    rw [isProtected_setProtected, isProtected_setProtected]
    split_ifs with hnew hold
    · simpa using hnew.1
    · simpa using hnew
    · refine iff_of_false (fun hprot => ?_) fun hsome => hnew ⟨hsome, rfl⟩
      have hroot := (hs.marked dev).mp hprot
      refine hold ⟨hroot, ?_⟩
      rw [hroot, Bool.and_eq_true, decide_eq_true_eq, decide_eq_true_eq]
      exact ⟨nofun, fun hsame => hnew ⟨hsame.symm, rfl⟩⟩
  · have hprov : isProvider parsed.mountKind = true := by simp_all
    refine agrees_of_provider hprov hmounted fun hslot => ?_
    rcases hvol : s.vfs.getMountInstance parsed.mountKind 0 with _ | volume
    · exact (hfits hslot hvol).trans (congrArg (Option.map Volume.dev) hvol).symm
    · exact (hs.refs _ volume hvol).trans (congrArg (Option.map Volume.dev) hvol).symm

omit hs

/-! ## Calls that leave the root -/

section

omit [DecidableEq Dev]

lemma slotEntry_update_of_ne (entry : Option (MountEntry Dev)) {slot : Nat} (hpos : slot ≠ 0)
    (hslot : slot ≠ i.val + 1) :
    slotEntry { vfs with mounts := Function.update vfs.mounts i entry } slot =
      vfs.slotEntry slot := by
  unfold slotEntry
  split
  next hlt =>
    refine Function.update_of_ne ?_ ..
    rintro rfl
    exact hslot (by simp; omega)
  · rfl

include hs

/-- A change of a slot that the root is not in keeps the root and its mark. -/
lemma RootProtected.update (entry : Option (MountEntry Dev)) (hroot : s.vfs.rootSlot ≠ i.val + 1) :
    RootProtected
      { s with vfs := { s.vfs with mounts := Function.update s.vfs.mounts i entry } } := by
  have hentry := fun hpos => @slotEntry_update_of_ne _ s.vfs i entry _ hpos hroot
  have hinstance : ∀ kind slot, (slot = 0 ∨ slot = s.vfs.rootSlot) →
      getMountInstance { s.vfs with mounts := Function.update s.vfs.mounts i entry } kind slot =
        s.vfs.getMountInstance kind slot := by
    intro kind slot hslot
    unfold getMountInstance
    split
    · rfl
    split
    · rfl
    next hpos => rw [slotEntry_update_of_ne entry hpos (by omega)]
  have hsame : rootBlockdev
      { s with vfs := { s.vfs with mounts := Function.update s.vfs.mounts i entry } } =
        s.rootBlockdev := by
    unfold rootBlockdev
    split
    · rfl
    split
    · rfl
    next hpos => exact congrArg (Option.map _) (hentry hpos)
  refine ⟨fun dev => hsame ▸ hs.marked dev, fun hpos => hentry hpos ▸ hs.mounted hpos,
    fun kind volume hvolume => ?_, ?_⟩
  · exact hs.refs kind volume ((hinstance kind 0 (.inl rfl)).symm.trans hvolume)
  · rw [hsame, hs.agrees]
    refine congrArg (Option.map Volume.dev) (hinstance _ _ ?_).symm
    unfold rootMount
    split
    · exact .inr rfl
    · exact .inl rfl

/-- A slot that is free does not hold the root. -/
lemma RootProtected.rootSlot_ne (hfree : s.vfs.mounts i = none) : s.vfs.rootSlot ≠ i.val + 1 := by
  intro hslot
  obtain ⟨entry, hentry, -⟩ := hs.mounted (by omega)
  rw [hslot] at hentry
  obtain ⟨j, hj, hmount⟩ := slotEntry_eq_some.mp hentry
  obtain rfl : i = j := Fin.ext hj
  rw [hfree] at hmount
  cases hmount

lemma RootProtected.storeMountEntry {target : List Char}
    {slot : Fin mountSlotMax} {entry : MountEntry Dev}
    (hprep : s.vfs.prepareDynamicMountTarget target = .ok (entry.name, slot)) :
    RootProtected { s with vfs := s.vfs.storeMountEntry slot entry } := by
  obtain ⟨-, -, hfree⟩ := prepareDynamicMountTarget_ok hprep
  exact hs.update (some entry) (hs.rootSlot_ne (mounts_findFreeMountSlot hfree))

/-- The slot that an unmount empties is not the root's. -/
lemma RootProtected.umount (disks : Disks Dev) (target : List Char) :
    (s.setVfs (Vfs.umount disks s.vfs target)).RootProtected := by
  unfold Vfs.umount
  split
  · exact hs
  next name _ =>
    split
    · exact hs
    next slot _ =>
      split
      · exact hs
      next entry hentry =>
        split
        · exact hs
        next hbusy =>
          split
          · exact hs
          refine hs.update none fun hslot => hbusy ⟨?_, hslot⟩
          obtain ⟨found, hfound, hkind⟩ := hs.mounted (by omega)
          rw [hslot] at hfound
          obtain ⟨j, hj, hmount⟩ := slotEntry_eq_some.mp hfound
          obtain rfl : slot = j := Fin.ext hj
          rw [hentry] at hmount
          cases hmount
          exact hkind.symm

end

/-! ## Runs -/

include hs

lemma RootProtected.perform {call : RootCall Dev}
    (hfits : s.Fits call) : (s.perform call).RootProtected := by
  cases call with
  | mountRoot disks kind volume => exact hs.mountRootFromSource disks hfits
  | switchRoot disks diskIndex partIndex => exact hs.switchRootToSource hfits
  | switchRootToNxfsUuid disks found =>
    cases found with
    | none => exact hs
    | some place => exact hs.switchRootToSource (hfits place rfl)
  | setRoot target => exact hs.setRootMount hfits
  | mount disks kind diskIndex partIndex target =>
    rw [RootState.perform]
    cases hmount : mountFs disks s.vfs kind diskIndex partIndex target with
    | error e => exact hs
    | ok vfs =>
      obtain ⟨slot, entry, hprep, -, -, rfl⟩ := mountFs_ok hmount
      exact hs.storeMountEntry hprep
  | mountAtLba disks kind diskIndex partitionLba target =>
    rw [RootState.perform]
    cases hmount : mountFsAtLba disks s.vfs kind diskIndex partitionLba target with
    | error e => exact hs
    | ok vfs =>
      obtain ⟨slot, entry, hprep, -, -, -, rfl⟩ := mountFsAtLba_ok hmount
      exact hs.storeMountEntry hprep
  | umount disks target => exact hs.umount disks target

omit hs

/-- Nothing is mounted. -/
def init (registry : Registry Dev) : RootState Dev :=
  ⟨⟨none, none, .none, 0, fun _ => none⟩, none, none, registry⟩

/-- In every run from a fresh mount table whose calls fit, the marked devices are exactly the
device of the volume at the root. -/
theorem root_device_protected (registry : Registry Dev) (calls : List (RootCall Dev))
    (hnone : ∀ dev, (registry.info dev).rootfsProtected = false)
    (hfits : RunFits perform Fits (init registry) calls) (dev : Dev) :
    (run perform (init registry) calls).isProtected dev = true ↔
      (run perform (init registry) calls).rootDevice = some dev := by
  have hinit : (init registry).RootProtected := by
    refine ⟨fun dev => ?_, fun hslot => absurd rfl hslot, fun kind volume hvolume => ?_, rfl⟩
    · exact iff_of_false (by simp [isProtected, init, hnone]) nofun
    · unfold getMountInstance at hvolume
      split_ifs at hvolume <;> simp_all [init]
  have hs := run_preserves RootProtected (fun _ _ hs hcall => hs.perform hcall) hinit hfits
  rw [← hs.agrees]
  exact hs.marked dev

/-- A FAT32 disk and an nxfs disk. -/
def mixedDisks : Disks Bool where
  get := fun i => if i = 0 then some false else some true
  blockCount := fun _ => 4096
  partitionGet := fun _ part => some (2048 * part)
  probeSource := fun kind volume => if volume.partitionLba = 0 then kind = .fat32 else kind = .nxfs
  acquireDevice := fun _ => true
  mount := fun _ _ => true
  flush := fun _ _ => true

def plainRegistry : Registry Bool :=
  ⟨[some false, some true], fun _ => ⟨.online, false, false, 0#32⟩, fun _ => .idle, fun _ => .idle,
    fun _ => false⟩

/-- The root goes from one partition of a disk to the other, then to the second disk,
then to a mount in a slot, whose unmount is refused. -/
theorem root_device_protected_moves : (run perform (init plainRegistry)
      [.switchRoot mixedDisks 0 (some 0), .switchRootToNxfsUuid mixedDisks (some (0, some 1)),
        .switchRoot mixedDisks 1 (some 1), .mount mixedDisks .none 0 (some 1) ['/', 'a'],
        .setRoot ['/', 'a'], .umount mixedDisks ['/', 'a']]).isProtected false = true :=
  (root_device_protected plainRegistry _ (fun _ => rfl) (by decide +kernel) false).mpr
    (by decide +kernel)

/-- The state after the first disk's FAT32 volume became the root and then a call was made. -/
def afterFat32 (call : RootCall Bool) : RootState Bool :=
  run perform (init plainRegistry) [.switchRoot mixedDisks 0 (some 0), call]

/-- A root on the FAT32 volume of one disk is replaced by the NXFS volume of another, and both
devices stay marked. It is mounted again, which fails, and the device stays marked although the
root is no volume. The override is taken away, and the device loses its mark although its volume
is still the root. -/
theorem root_device_protected_twice :
    ((afterFat32 (.switchRoot mixedDisks 1 (some 1))).rootDevice = some true ∧
      (afterFat32 (.switchRoot mixedDisks 1 (some 1))).isProtected false = true) ∧
    ((afterFat32 (.switchRoot { mixedDisks with mount := fun _ _ => false } 0
        (some 0))).rootDevice = none ∧
      (afterFat32 (.switchRoot { mixedDisks with mount := fun _ _ => false } 0
        (some 0))).isProtected false = true) ∧
    (afterFat32 (.setRoot ['/'])).rootDevice = some false ∧
      (afterFat32 (.setRoot ['/'])).isProtected false = false := by
  decide +kernel

end RootState

end NexOS.Vfs
