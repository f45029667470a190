import NexOS.Lib.GuardedRuns
import NexOS.Vfs.Mounts

/-! # Open nodes and the volumes they act on

A node keeps the kind and the slot of the mount it was opened on, and every read
and write looks the volume up again. A node goes on to act on the volume it was
opened on if nothing else is placed under its kind and slot while it is open.
-/

namespace NexOS.Vfs

open GuardedRuns
open NexOS.Proc (MountKind)

/-- An open node, with the volume it was opened on. -/
structure OpenNode (Dev : Type) where
  mountKind : MountKind
  mountSlot : Nat
  openedOn : Volume Dev
  deriving DecidableEq

/-- An access through a node, with the volume it acted on. -/
structure Access (Dev : Type) where
  node : OpenNode Dev
  actedOn : Volume Dev
  deriving DecidableEq

/-- The mount table, the open nodes and the accesses made so far. -/
structure Session (Dev : Type) where
  vfs : Vfs Dev
  nodes : List (OpenNode Dev)
  accesses : List (Access Dev)

variable {Dev : Type}

/-! ## Opening and access -/

/-- A node of a volume that a parsed path leads to, if the file system finds or
creates the file. -/
def openOn (vfs : Vfs Dev) (parsed : ParsedPath) (found : Bool) : Option (OpenNode Dev) :=
  if !vfs.mountReady parsed.mountKind then none
  else
    match vfs.getMountInstance parsed.mountKind parsed.mountSlot with
    | none => none
    | some volume => if found then some ⟨parsed.mountKind, parsed.mountSlot, volume⟩ else none

/-- `vfs_open`, for nodes on a volume. -/
def openFile (vfs : Vfs Dev) (path : List Char) (found : Bool) : Option (OpenNode Dev) :=
  match vfs.parsePath path with
  | none => none
  | some parsed =>
    if parsed.rootDir || parsed.childIsRoot || !parsed.hasChild then none
    else openOn vfs parsed found

/-- `vfs_opendir`, for nodes on a volume. -/
def openDir (vfs : Vfs Dev) (path : List Char) (found : Bool) : Option (OpenNode Dev) :=
  match vfs.parsePath path with
  | none => none
  | some parsed =>
    if parsed.rootDir || (!parsed.childIsRoot && !parsed.hasChild) then none
    else openOn vfs parsed found

/-- The volume that a read or a write through the node acts on, if it does not
fail before it reaches one. -/
def accessVolume (vfs : Vfs Dev) (node : OpenNode Dev) : Option (Volume Dev) :=
  if !vfs.mountReady node.mountKind then none
  else vfs.getMountInstance node.mountKind node.mountSlot

/-! ## Calls -/

/-- The calls of the processes on files and mounts. -/
inductive Call (Dev : Type) where
  | openFile (path : List Char) (found : Bool)
  | openDir (path : List Char) (found : Bool)
  | close (node : OpenNode Dev)
  | read (node : OpenNode Dev)
  | write (node : OpenNode Dev)
  | mount (disks : Disks Dev) (kind : MountKind) (diskIndex : Nat) (partIndex : Option Nat)
      (target : List Char)
  | mountAtLba (disks : Disks Dev) (kind : MountKind) (diskIndex : Nat) (partitionLba : Nat)
      (target : List Char)
  | umount (disks : Disks Dev) (target : List Char)
  | setRoot (target : List Char)
  | switchRoot (disks : Disks Dev) (diskIndex : Nat) (partIndex : Option Nat)

namespace Session

def addNode (s : Session Dev) : Option (OpenNode Dev) → Session Dev
  | none => s
  | some node => { s with nodes := node :: s.nodes }

/-- An access through a node that is open is recorded if it reaches a volume. -/
def access [DecidableEq Dev] (s : Session Dev) (node : OpenNode Dev) : Session Dev :=
  if node ∈ s.nodes then
    match accessVolume s.vfs node with
    | none => s
    | some volume => { s with accesses := ⟨node, volume⟩ :: s.accesses }
  else s

def setVfs (s : Session Dev) : Except MountError (Vfs Dev) → Session Dev
  | .error _ => s
  | .ok vfs => { s with vfs := vfs }

/-- A call, and the accesses it makes. -/
def perform [DecidableEq Dev] (s : Session Dev) : Call Dev → Session Dev
  | .openFile path found => s.addNode (openFile s.vfs path found)
  | .openDir path found => s.addNode (openDir s.vfs path found)
  | .close node => { s with nodes := s.nodes.erase node }
  | .read node => s.access node
  | .write node => s.access node
  | .mount disks kind diskIndex partIndex target =>
    s.setVfs (mountFs disks s.vfs kind diskIndex partIndex target)
  | .mountAtLba disks kind diskIndex partitionLba target =>
    s.setVfs (mountFsAtLba disks s.vfs kind diskIndex partitionLba target)
  | .umount disks target => s.setVfs (umount disks s.vfs target)
  | .setRoot target => { s with vfs := (s.vfs.setRootMount target).getD s.vfs }
  | .switchRoot disks diskIndex partIndex =>
    { s with vfs := (s.vfs.switchRootToSource disks diskIndex partIndex).2 }

/-- No node of the kind and slot is open that was opened on another volume. -/
def FreeFor (s : Session Dev) (kind : MountKind) (slot : Nat) (volume : Volume Dev) : Prop :=
  ∀ node ∈ s.nodes, node.mountKind = kind → node.mountSlot = slot → node.openedOn = volume

/-- A volume is placed under a kind and slot only if no node that was opened there
on another volume is still open. Calls that are refused place none. -/
def Fits (s : Session Dev) : Call Dev → Prop
  | .mount disks kind diskIndex partIndex target => ∀ slot entry,
      mountFs disks s.vfs kind diskIndex partIndex target =
        .ok (s.vfs.storeMountEntry slot entry) → s.FreeFor entry.kind (slot.val + 1) entry.volume
  | .mountAtLba disks kind diskIndex partitionLba target => ∀ slot entry,
      mountFsAtLba disks s.vfs kind diskIndex partitionLba target =
        .ok (s.vfs.storeMountEntry slot entry) → s.FreeFor entry.kind (slot.val + 1) entry.volume
  | .switchRoot disks diskIndex partIndex => ∀ volume kind,
      resolveMountSource disks diskIndex partIndex = .ok volume →
      detectMountKind disks volume = .ok kind →
      (s.vfs.mountRootFromSource disks kind volume).1 = .ok () → s.FreeFor kind 0 volume
  | _ => True

/-- What is under a node's kind and slot is the volume it was opened on, if there is
anything, and every access made so far was on that volume. -/
structure Bound (s : Session Dev) : Prop where
  nodes : ∀ node ∈ s.nodes, ∀ volume,
    s.vfs.getMountInstance node.mountKind node.mountSlot = some volume → volume = node.openedOn
  accesses : ∀ access ∈ s.accesses, access.actedOn = access.node.openedOn

variable {s : Session Dev} {vfs : Vfs Dev}

/-- No file is open. -/
def initial (vfs : Vfs Dev) : Session Dev := ⟨vfs, [], []⟩

lemma bound_initial (vfs : Vfs Dev) : (initial vfs).Bound := ⟨nofun, nofun⟩

lemma freeFor_of_nodes_eq_nil (hnodes : s.nodes = []) (kind : MountKind) (slot : Nat)
    (volume : Volume Dev) : s.FreeFor kind slot volume := by
  intro node hnode
  rw [hnodes] at hnode
  exact absurd hnode List.not_mem_nil

/-! ## One call -/

variable (hbound : s.Bound) {found : Bool} {node : OpenNode Dev}

include hbound

/-- A table in which every volume was there before, or is what the open nodes of
its kind and slot were opened on, keeps the nodes bound. -/
lemma Bound.setVfs (hplace : ∀ kind slot volume, vfs.getMountInstance kind slot = some volume →
      s.vfs.getMountInstance kind slot = some volume ∨ s.FreeFor kind slot volume) :
    Bound { s with vfs := vfs } where
  nodes := by
    intro node hnode volume hvol
    rcases hplace _ _ _ hvol with hbefore | hfree
    · exact hbound.nodes node hnode volume hbefore
    · exact (hfree node hnode rfl rfl).symm
  accesses := hbound.accesses

/-- A slot gets a volume that its open nodes were opened on, or none. -/
lemma Bound.setMount (slot : Fin mountSlotMax) (new : Option (MountEntry Dev))
    (hfree : ∀ entry, new = some entry → s.FreeFor entry.kind (slot.val + 1) entry.volume) :
    Bound { s with vfs := { s.vfs with mounts := Function.update s.vfs.mounts slot new } } := by
  apply hbound.setVfs
  intro kind n volume hvolume
  obtain ⟨hprov, hbuiltin | ⟨i, found, hn, hfound, hkind, hvol⟩⟩ :=
    getMountInstance_eq_some.mp hvolume
  · exact .inl (getMountInstance_eq_some.mpr ⟨hprov, .inl hbuiltin⟩)
  by_cases hi : i = slot
  · subst hi hn hkind hvol
    simp only [Function.update_self] at hfound
    exact .inr (hfree found hfound)
  · simp only [Function.update_of_ne hi] at hfound
    exact .inl (getMountInstance_eq_some.mpr ⟨hprov, .inr ⟨i, found, hn, hfound, hkind, hvol⟩⟩)

/-- The built-in volume of a kind is replaced by none or by what its nodes were
opened on. -/
lemma Bound.setBuiltin {kind : MountKind} (hkind : isProvider kind = true)
    (new : Option (Volume Dev)) (hfree : ∀ volume, new = some volume → s.FreeFor kind 0 volume)
    (rootKind : MountKind) (rootSlot : Nat) :
    Bound { s with vfs :=
      { s.vfs.setBuiltin kind new with rootKind := rootKind, rootSlot := rootSlot } } := by
  apply hbound.setVfs
  intro other n volume hvolume
  replace hvolume := (getMountInstance_setBuiltin hkind new other n).symm.trans hvolume
  split at hvolume
  next hhere =>
    obtain ⟨rfl, rfl⟩ := hhere
    exact .inr (hfree volume hvolume)
  · exact .inl hvolume

omit hbound

lemma getMountInstance_setRootMount (target : List Char) (kind : MountKind) (slot : Nat) :
    ((vfs.setRootMount target).getD vfs).getMountInstance kind slot =
      vfs.getMountInstance kind slot := by
  unfold setRootMount
  split
  · rfl
  · split
    · rfl
    · split <;> rfl

/-- A node is opened on the volume that its kind and slot stand for. -/
lemma openOn_eq_some {parsed : ParsedPath} (hopen : openOn vfs parsed found = some node) :
    vfs.getMountInstance node.mountKind node.mountSlot = some node.openedOn := by
  unfold openOn at hopen
  rcases hinstance : vfs.getMountInstance parsed.mountKind parsed.mountSlot with _ | volume
  · simp [hinstance] at hopen
  simp only [hinstance] at hopen
  split_ifs at hopen
  rw [← Option.some.inj hopen]
  exact hinstance

lemma openFile_eq_some {path : List Char} (hopen : openFile vfs path found = some node) :
    vfs.getMountInstance node.mountKind node.mountSlot = some node.openedOn := by
  unfold openFile at hopen
  rcases hparse : vfs.parsePath path with _ | parsed
  · simp [hparse] at hopen
  simp only [hparse] at hopen
  split_ifs at hopen
  exact openOn_eq_some hopen

lemma openDir_eq_some {path : List Char} (hopen : openDir vfs path found = some node) :
    vfs.getMountInstance node.mountKind node.mountSlot = some node.openedOn := by
  unfold openDir at hopen
  rcases hparse : vfs.parsePath path with _ | parsed
  · simp [hparse] at hopen
  simp only [hparse] at hopen
  split_ifs at hopen
  exact openOn_eq_some hopen

include hbound

lemma Bound.addNode {opened : Option (OpenNode Dev)} (hopen : ∀ node, opened = some node →
      s.vfs.getMountInstance node.mountKind node.mountSlot = some node.openedOn) :
    (s.addNode opened).Bound := by
  rcases opened with _ | node
  · exact hbound
  refine ⟨fun other hother volume hvol => ?_, hbound.accesses⟩
  rcases List.mem_cons.mp hother with rfl | hother
  · exact Option.some.inj (hvol.symm.trans (hopen other rfl))
  · exact hbound.nodes other hother volume hvol

lemma Bound.mountRootFromSource {disks : Disks Dev} {kind : MountKind}
    {volume : Volume Dev} (hfree : (s.vfs.mountRootFromSource disks kind volume).1 = .ok () →
      s.FreeFor kind 0 volume) :
    Bound { s with vfs := (s.vfs.mountRootFromSource disks kind volume).2 } := by
  unfold Vfs.mountRootFromSource at hfree ⊢
  rcases hprov : isProvider kind with _ | _
  · exact hbound
  simp only [hprov, Bool.not_true, Bool.false_eq_true, if_false] at hfree ⊢
  split_ifs at hfree ⊢
  · exact hbound
  · -- the volume that was there before is gone
    exact hbound.setBuiltin hprov none nofun s.vfs.rootKind s.vfs.rootSlot
  · refine hbound.setBuiltin hprov (some volume) (fun other hother => ?_) kind 0
    rw [← Option.some.inj hother]
    exact hfree rfl

variable [DecidableEq Dev]

lemma Bound.access (node : OpenNode Dev) : (s.access node).Bound := by
  unfold Session.access
  split
  next hnode =>
    rcases hvol : accessVolume s.vfs node with _ | volume
    · exact hbound
    refine ⟨hbound.nodes, fun access hacc => ?_⟩
    rcases List.mem_cons.mp hacc with rfl | hacc
    · unfold accessVolume at hvol
      split_ifs at hvol
      exact hbound.nodes node hnode volume hvol
    · exact hbound.accesses access hacc
  · exact hbound

lemma Bound.perform {call : Call Dev} (hfits : s.Fits call) : (s.perform call).Bound := by
  cases call with
  | openFile path found => exact hbound.addNode fun node => openFile_eq_some
  | openDir path found => exact hbound.addNode fun node => openDir_eq_some
  | close node =>
    exact ⟨fun other hother => hbound.nodes other (List.mem_of_mem_erase hother), hbound.accesses⟩
  | read node => exact hbound.access node
  | write node => exact hbound.access node
  | mount disks kind diskIndex partIndex target =>
    rw [Session.perform]
    rcases hmount : mountFs disks s.vfs kind diskIndex partIndex target with e | vfs
    · exact hbound
    obtain ⟨slot, entry, -, -, -, rfl⟩ := mountFs_ok hmount
    refine hbound.setMount slot (some entry) fun found hfound => ?_
    cases hfound
    exact hfits slot entry hmount
  | mountAtLba disks kind diskIndex partitionLba target =>
    rw [Session.perform]
    rcases hmount : mountFsAtLba disks s.vfs kind diskIndex partitionLba target with e | vfs
    · exact hbound
    obtain ⟨slot, entry, -, -, -, -, rfl⟩ := mountFsAtLba_ok hmount
    refine hbound.setMount slot (some entry) fun found hfound => ?_
    cases hfound
    exact hfits slot entry hmount
  | umount disks target =>
    rw [Session.perform]
    cases humount : umount disks s.vfs target with
    | error e => exact hbound
    | ok vfs =>
      obtain ⟨slot, -, rfl⟩ := umount_ok humount
      exact hbound.setMount slot none nofun
  | setRoot target =>
    apply hbound.setVfs
    intro kind slot volume hvol
    exact .inl (by rwa [getMountInstance_setRootMount] at hvol)
  | switchRoot disks diskIndex partIndex =>
    rw [Session.perform, Vfs.switchRootToSource]
    rcases hsource : resolveMountSource disks diskIndex partIndex with e | volume
    · exact hbound
    cases hkind : detectMountKind disks volume with
    | error e => simpa [hkind] using hbound
    | ok kind =>
      simp only [hkind]
      exact hbound.mountRootFromSource (hfits volume kind hsource hkind)

/-! ## Runs -/

omit hbound

/-- In a run in which a volume is placed under a kind and slot only while no node
opened there on another volume is open, every read and write through a node acts on
the volume the node was opened on, or fails. -/
theorem accesses_stay_on_volume (vfs : Vfs Dev) (calls : List (Call Dev))
    (hfits : RunFits perform Fits (initial vfs) calls) :
    (∀ access ∈ (run perform (initial vfs) calls).accesses, access.actedOn = access.node.openedOn) ∧
      ∀ node ∈ (run perform (initial vfs) calls).nodes, ∀ volume,
        accessVolume (run perform (initial vfs) calls).vfs node = some volume →
          volume = node.openedOn := by
  have hbound := run_preserves Bound (fun _ _ hbound hfits => hbound.perform hfits)
    (bound_initial vfs) hfits
  refine ⟨hbound.accesses, fun node hnode volume hvol => ?_⟩
  unfold accessVolume at hvol
  split_ifs at hvol
  exact hbound.nodes node hnode volume hvol

/-- Two disks with an nxfs volume each. -/
def twoDisks : Disks Bool where
  get := fun i => if i = 0 then some false else some true
  blockCount := fun _ => 4096
  partitionGet := fun _ _ => some 2048
  probeSource := fun kind _ => kind = .nxfs
  acquireDevice := fun _ => true
  mount := fun _ _ => true
  flush := fun _ _ => true

def noVolumes : Vfs Bool := ⟨none, none, .none, 0, fun _ => none⟩

def firstNode (disk : Bool) : OpenNode Bool := ⟨.nxfs, 1, disk, 2048⟩

/-- A file is opened, written, and closed after its volume was unmounted; then
another volume is placed in the slot. -/
def closedBeforeReuse : List (Call Bool) :=
  [.mount twoDisks .nxfs 0 (some 0) ['/', 'a'], .openFile ['/', 'a', '/', 'x'] true,
    .write (firstNode false), .umount twoDisks ['/', 'a'], .write (firstNode false),
    .close (firstNode false), .mount twoDisks .nxfs 1 (some 0) ['/', 'b'],
    .openFile ['/', 'b', '/', 'x'] true, .read (firstNode true)]

/-- The slot is used again after the file was closed. -/
theorem accesses_stay_on_volume_reuse : RunFits perform Fits (initial noVolumes) closedBeforeReuse ∧
      (run perform (initial noVolumes) closedBeforeReuse).accesses =
        [⟨firstNode true, true, 2048⟩, ⟨firstNode false, false, 2048⟩] ∧
      ∀ access ∈ (run perform (initial noVolumes) closedBeforeReuse).accesses,
        access.actedOn = access.node.openedOn := by
  have hfits : RunFits perform Fits (initial noVolumes) closedBeforeReuse :=
    ⟨fun _ _ _ => freeFor_of_nodes_eq_nil (by decide +kernel) _ _ _, trivial, trivial, trivial,
      trivial, trivial, fun _ _ _ => freeFor_of_nodes_eq_nil (by decide +kernel) _ _ _,
      trivial, trivial, trivial⟩
  exact ⟨hfits, by decide +kernel, (accesses_stay_on_volume noVolumes closedBeforeReuse hfits).1⟩

/-- A file is open while its slot is used for another volume. -/
def openDuringReuse : List (Call Bool) :=
  [.mount twoDisks .nxfs 0 (some 0) ['/', 'a'], .openFile ['/', 'a', '/', 'x'] true,
    .umount twoDisks ['/', 'a'], .mount twoDisks .nxfs 1 (some 0) ['/', 'b'],
    .write (firstNode false)]

/-- The root is moved to another disk while a node on the built-in volume is open. -/
def openDuringRootSwitch : List (Call Bool) :=
  [.switchRoot twoDisks 0 (some 0), .openFile ['/', 'x'] true, .switchRoot twoDisks 1 (some 0),
    .write ⟨.nxfs, 0, false, 2048⟩]

/-- A write through a node opened on the first disk acts on the second one, after
its slot was reused and after the root was switched. -/
theorem write_on_other_volume :
    (run perform (initial noVolumes) openDuringReuse).accesses = [⟨firstNode false, true, 2048⟩] ∧
      (run perform (initial noVolumes) openDuringRootSwitch).accesses =
        [⟨⟨.nxfs, 0, false, 2048⟩, true, 2048⟩] := by
  constructor <;> decide +kernel

end Session

end NexOS.Vfs
