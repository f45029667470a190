import NexOS.Lib.GuardedRuns
import NexOS.Lib.PathText
import NexOS.Vfs.Mounts

/-! # The mount namespace

A mount is made at a target, which is a list of segments. Paths below the target
should be resolved in the mount, and all other paths outside of it. The mount
table keeps the last segment of the target only, and resolution looks for that
segment anywhere in the path. The two agree on the paths on which no other segment
before the end of the target is the last segment of a target.
-/

namespace NexOS.Vfs

open Function

open NexOS.Proc (MountKind)
open List PathText

/-! ## Mounts with their targets -/

/-- A mount and the target it was made at. -/
structure MountPoint where
  target : List (List Char)
  kind : MountKind
  slot : Nat
  deriving DecidableEq

/-- The mounts that are always there. -/
def fixedPoints : List MountPoint :=
  [⟨[bootName], .fat32, 0⟩, ⟨[fatName], .fat32, 0⟩, ⟨[nxfsName], .nxfs, 0⟩,
    ⟨[devName], .devfs, 0⟩, ⟨[procName], .procfs, 0⟩, ⟨[eventName], .eventfs, 0⟩]

/-- The mount table together with the targets that the mounts in it were made at. -/
structure Namespace (Dev : Type) where
  vfs : Vfs Dev
  targets : Fin mountSlotMax → List (List Char)

/-- A path without empty segments. -/
structure NormalPath where
  segments : List (List Char)
  nonempty : ∀ segment ∈ segments, segment ≠ []
  noSlash : ∀ segment ∈ segments, '/' ∉ segment

/-- The path as it is written. -/
def NormalPath.text (path : NormalPath) : List Char := '/' :: join '/' path.segments

/-- The result of resolving the segments `rest` in a mount. -/
def within (kind : MountKind) (slot : Nat) (rest : List (List Char)) : ParsedPath :=
  if rest = [] then { childIsRoot := true, mountKind := kind, mountSlot := slot }
  else { hasChild := true, mountKind := kind, mountSlot := slot, child := join '/' rest }

variable {Dev : Type}
  {name target segment : List Char} {dirs rest : List (List Char)} {kind : MountKind}
  {slot : Nat}

/-- A path that is on no other mount. -/
def withinRoot (vfs : Vfs Dev) (segments : List (List Char)) : ParsedPath :=
  if segments = [] then vfs.rootPath
  else { hasChild := true, mountKind := vfs.rootMount.1, mountSlot := vfs.rootMount.2,
         child := join '/' segments }

namespace Namespace

/-- The mount point of a slot. -/
def slotPoint (ns : Namespace Dev) (i : Fin mountSlotMax) : Option MountPoint :=
  (ns.vfs.mounts i).map fun entry => ⟨ns.targets i, entry.kind, i.val + 1⟩

/-- All mount points. -/
def mounted (ns : Namespace Dev) : List MountPoint :=
  fixedPoints ++ (List.finRange mountSlotMax).filterMap ns.slotPoint

/-- The first mount whose target ends in the segment. -/
def owner (ns : Namespace Dev) (segment : List Char) : Option MountPoint :=
  ns.mounted.find? fun point => point.target.getLast? = some segment

/-- The mount with the longest target that the path is under. -/
def Longest (ns : Namespace Dev) (point : MountPoint) (path : NormalPath) : Prop :=
  point ∈ ns.mounted ∧ point.target <+: path.segments ∧
    ∀ other ∈ ns.mounted, other.target <+: path.segments → other.target.length ≤ point.target.length

/-- The path is resolved in the mount at the longest target above it, and in the
root file system if there is no target above it. -/
def ResolvesRight (ns : Namespace Dev) (path : NormalPath) : Prop :=
  (∀ point, ns.Longest point path → ns.vfs.parsePath path.text =
    some (within point.kind point.slot (path.segments.drop point.target.length))) ∧
  ((∀ point ∈ ns.mounted, ¬ point.target <+: path.segments) →
    ns.vfs.parsePath path.text = some (withinRoot ns.vfs path.segments))

/-- The mount whose name comes first in the path is at the only target above it. -/
structure OnlyAbove (ns : Namespace Dev) (path : NormalPath) (point : MountPoint) : Prop where
  above : point.target <+: path.segments
  only : ∀ other ∈ ns.mounted, other.target <+: path.segments → other = point
  unowned : ∀ segment ∈ point.target.dropLast, segment.length ≤ nameMax ∧ ns.owner segment = none
  owned : ∀ segment, point.target.getLast? = some segment → ns.owner segment = some point
  fits : (join '/' (path.segments.drop point.target.length)).length ≤ pathMax

/-- The path has no segment that is the last one of a target, or the first one that
is belongs to the only target above the path. -/
def Agrees (ns : Namespace Dev) (path : NormalPath) : Prop :=
  ((join '/' path.segments).length ≤ pathMax ∧ ∀ segment ∈ path.segments, ns.owner segment = none) ∨
  ∃ point ∈ ns.mounted, ns.OnlyAbove path point

/-- An unmount finds nothing or a mount that was made at its target. -/
def UnmountsRight (ns : Namespace Dev) (target : List Char) : Prop :=
  ∀ i, ns.vfs.targetSlot target = some i → ns.targets i = segments '/' target

/-- A mount with the name of the target was made at the target. -/
def TargetAgrees (ns : Namespace Dev) (target : List Char) : Prop :=
  ∀ i entry, ns.vfs.mounts i = some entry → resolveMountTargetName target = some entry.name →
    ns.targets i = segments '/' target

end Namespace

/-! ## Calls -/

/-- The calls on the mounts. -/
inductive MountCall (Dev : Type) where
  | mount (disks : Disks Dev) (kind : MountKind) (diskIndex : Nat) (partIndex : Option Nat)
      (target : List Char)
  | umount (disks : Disks Dev) (target : List Char)

namespace Namespace

/-- The target of a new mount is remembered. -/
def recordTarget (ns : Namespace Dev) (target : List Char) : Fin mountSlotMax → List (List Char) :=
  match ns.vfs.findFreeMountSlot with
  | none => ns.targets
  | some slot => update ns.targets slot (segments '/' target)

/-- A call on the mounts. -/
def perform (ns : Namespace Dev) : MountCall Dev → Namespace Dev
  | .mount disks kind diskIndex partIndex target =>
    match mountFs disks ns.vfs kind diskIndex partIndex target with
    | .error _ => ns
    | .ok vfs => ⟨vfs, ns.recordTarget target⟩
  | .umount disks target =>
    match umount disks ns.vfs target with
    | .error _ => ns
    | .ok vfs => { ns with vfs := vfs }

/-- The mounts after a list of calls. -/
def run (ns : Namespace Dev) (calls : List (MountCall Dev)) : Namespace Dev :=
  GuardedRuns.run perform ns calls

/-- Only the fixed mounts. -/
def initial (fat32 nxfs : Option (Volume Dev)) (rootKind : MountKind) (rootSlot : Nat) :
    Namespace Dev :=
  ⟨⟨fat32, nxfs, rootKind, rootSlot, fun _ => none⟩, fun _ => []⟩

/-- Each slot has the last segment of its target as its name, and no two slots
have the same name. -/
structure Named (ns : Namespace Dev) : Prop where
  last : ∀ i entry, ns.vfs.mounts i = some entry →
    (ns.targets i).getLast? = some entry.name ∧ entry.name.length ≤ nameMax
  distinct : ∀ i j entry other, ns.vfs.mounts i = some entry → ns.vfs.mounts j = some other →
    entry.name = other.name → i = j

end Namespace

/-! ## Names of targets -/

/-- No slash but at the end. -/
def NoInnerSlash (text : List Char) : Prop :=
  ∀ before after, text = before ++ '/' :: after → after = []

lemma NoInnerSlash.cons {c : Char} {rest : List Char} (hrest : NoInnerSlash rest)
    (hc : ¬ (c = '/' ∧ rest ≠ [])) : NoInnerSlash (c :: rest) := by
  intro before after heq
  cases before with
  | nil =>
    obtain ⟨rfl, rfl⟩ := List.cons.inj heq
    by_contra hne
    exact hc ⟨rfl, hne⟩
  | cons b before => exact hrest before after (List.cons.inj heq).2

lemma lastPart_spec (last text : List Char) : (lastPart last text = last ∧ NoInnerSlash text) ∨
      ∃ before, text = before ++ '/' :: lastPart last text ∧ NoInnerSlash (lastPart last text) := by
  induction text generalizing last with
  | nil => exact .inl ⟨rfl, fun before after h => by simp at h⟩
  | cons c rest ih =>
    rw [lastPart]
    split
    next hc =>
      rcases ih rest with ⟨hlast, hrest⟩ | ⟨before, heq, hinner⟩
      · rw [hlast]
        exact .inr ⟨[], by rw [hc.1]; rfl, hrest⟩
      · exact .inr ⟨c :: before, congrArg (c :: ·) heq, hinner⟩
    next hc =>
      rcases ih last with ⟨hlast, hrest⟩ | ⟨before, heq, hinner⟩
      · exact .inl ⟨hlast, hrest.cons hc⟩
      · exact .inr ⟨c :: before, congrArg (c :: ·) heq, hinner⟩

lemma slash_notMem_segmentAt (text : List Char) : '/' ∉ segmentAt text := fun hmem => by
  simpa using mem_takeWhile_imp hmem

lemma segmentAt_append_drop (text : List Char) :
    segmentAt text ++ text.drop (segmentAt text).length = text := by
  have hprefix : segmentAt text <+: text := ( takeWhile_prefix _).trans ( take_prefix _ _)
  conv_rhs => rw [← take_append_drop (segmentAt text).length text]
  rw [← prefix_iff_eq_take.mp hprefix]

lemma segmentAt_ne_nil {text : List Char} (hne : text ≠ []) (hhead : text.head? ≠ some '/') :
    segmentAt text ≠ [] := by
  cases text with
  | nil => exact absurd rfl hne
  | cons c rest =>
    have hc : c ≠ '/' := fun heq => hhead (by rw [heq]; rfl)
    simp [segmentAt, nameMax, hc]

/-- The name of a mount is the last segment of its target. -/
lemma getLast?_of_resolveMountTargetName (hname : resolveMountTargetName target = some name) :
    (segments '/' target).getLast? = some name := by
  unfold resolveMountTargetName at hname
  split at hname
  · simp at hname
  next htgt =>
    rw [not_or] at htgt
    obtain ⟨hhead, hroot⟩ := htgt
    set last := lastPart target target with hlast
    -- the target has a separator before its last part
    obtain ⟨before, htext, hinner⟩ : ∃ before, target = before ++ '/' :: last ∧
        NoInnerSlash last := by
      rcases lastPart_spec target target with ⟨-, hinner⟩ | hspec
      · obtain ⟨rest, rfl⟩ : ∃ rest, target = '/' :: rest := by
          cases target with
          | nil => simp at hhead
          | cons c rest => exact ⟨rest, by simpa using hhead⟩
        exact absurd (congrArg (List.cons '/') (hinner [] rest rfl)) hroot
      · exact hspec
    dsimp only at hname
    split at hname
    · simp at hname
    next hlastHead =>
      rw [not_or] at hlastHead
      have hne := segmentAt_ne_nil hlastHead.1 hlastHead.2
      have hseg := segments_of_notMem (slash_notMem_segmentAt last) hne
      have hsplit := segmentAt_append_drop last
      rw [htext, segments_append_sep]
      split at hname
      next hdrop =>
        rw [hdrop, append_nil] at hsplit
        rw [Option.some.injEq] at hname
        rw [← hsplit, hseg, hname, List.getLast?_append]
        rfl
      next c after hdrop =>
        split at hname
        next hc =>
          rw [Option.some.injEq] at hname
          rw [hdrop, hc] at hsplit
          have hafter : after = [] := hinner _ _ hsplit.symm
          rw [← hsplit, hafter, segments_append_sep, hseg, hname]
          simp [segments, collect]
        · simp at hname

/-! ## Owners of segments -/

namespace Namespace

variable {ns : Namespace Dev} {path : NormalPath} {point : MountPoint}

/-- Resolution knows the fixed mounts by name. -/
lemma segmentMount_of_fixed
    (hfixed : fixedPoints.find? (fun point => point.target.getLast? = some segment) = some point) :
    ns.vfs.segmentMount segment = some (point.kind, point.slot) := by
  have hmem : point ∈ fixedPoints := mem_of_find?_eq_some hfixed
  have hlast : point.target.getLast? = some segment := by simpa using List.find?_some hfixed
  simp only [fixedPoints, mem_cons, not_mem_nil, or_false] at hmem
  rcases hmem with rfl | rfl | rfl | rfl | rfl | rfl <;>
    · cases hlast
      rfl

lemma segmentMount_of_not_fixed
    (hfixed : fixedPoints.find? (fun point => point.target.getLast? = some segment) = none) :
    ns.vfs.segmentMount segment = (ns.vfs.findDynamicMount segment).bind fun i =>
      (ns.vfs.mounts i).map fun entry => (entry.kind, i.val + 1) := by
  have hne : ∀ point ∈ fixedPoints, point.target.getLast? ≠ some segment := by
    simpa using hfixed
  simp only [fixedPoints, forall_mem_cons, List.getLast?_singleton, ne_eq, Option.some.injEq] at hne
  obtain ⟨hboot, hfat, hnxfs, hdev, hproc, hevent, -⟩ := hne
  simp only [segmentMount, Ne.symm hboot, Ne.symm hfat, Ne.symm hnxfs, Ne.symm hdev,
    Ne.symm hproc, Ne.symm hevent, or_self, if_false]

lemma any_slotPoint (hnamed : ns.Named) (segment : List Char) (i : Fin mountSlotMax) :
    (ns.slotPoint i).any (fun point => decide (point.target.getLast? = some segment)) =
      (ns.vfs.mounts i).any fun entry => decide (entry.name = segment) := by
  cases hentry : ns.vfs.mounts i with
  | none => simp [slotPoint, hentry]
  | some entry => simp [slotPoint, hentry, (hnamed.last i entry hentry).1]

/-- Resolution takes a segment for the mount that owns it. -/
lemma segmentMount_eq_owner (hnamed : ns.Named) (segment : List Char) :
    ns.vfs.segmentMount segment = (ns.owner segment).map fun point => (point.kind, point.slot) := by
  rw [owner, mounted, List.find?_append]
  cases hfixed : fixedPoints.find? fun point => point.target.getLast? = some segment with
  | some point =>
    rw [segmentMount_of_fixed hfixed]
    rfl
  | none =>
    rw [segmentMount_of_not_fixed hfixed, List.find?_filterMap]
    simp only [any_slotPoint hnamed]
    rw [← findDynamicMount]
    simp [slotPoint, comp_def]

end Namespace

/-! ## Resolution of normal paths -/

section Scan

variable {vfs : Vfs Dev}

lemma scanPath_of_head {cur : List Char} (hne : cur ≠ []) (hhead : cur.head? ≠ some '/') :
    vfs.scanPath cur =
      match vfs.segmentMount (segmentAt cur) with
      | some (kind, slot) =>
        some (entered kind slot (skipSlash (cur.drop (segmentAt cur).length)))
      | none =>
        if cur.drop (segmentAt cur).length = [] then none
        else vfs.scanPath (skipSlash (cur.drop (segmentAt cur).length)) := by
  rcases cur with _ | ⟨c, rest⟩
  · exact absurd rfl hne
  have hc : c ≠ '/' := fun heq => hhead (by rw [heq]; rfl)
  obtain ⟨length, hlen⟩ := Nat.exists_eq_succ_of_ne_zero
    (length_pos_iff.mpr (segmentAt_ne_nil hne hhead)).ne'
  rw [scanPath, if_neg hc]
  simp only [hlen]
  cases vfs.segmentMount (segmentAt (c :: rest)) <;> rfl

/-- The text of a path at one of its segments. -/
lemma segmentAt_join (hslash : '/' ∉ segment) (hlen : segment.length ≤ nameMax) :
    segmentAt (join '/' (segment :: rest)) = segment := by
  have hall : ∀ c ∈ segment, decide (c ≠ '/') = true := fun c hc =>
    decide_eq_true fun heq => hslash (heq ▸ hc)
  cases rest with
  | nil =>
    rw [segmentAt, join, take_of_length_le hlen]
    exact takeWhile_eq_self_iff.mpr hall
  | cons next rest =>
    rw [segmentAt, join_cons_cons, take_append, take_of_length_le hlen,
      takeWhile_append_of_pos hall]
    cases nameMax - segment.length <;> simp

lemma skipSlash_drop_join : skipSlash ((join '/' (segment :: rest)).drop segment.length) =
      join '/' rest := by
  cases rest with
  | nil => simp [join, skipSlash]
  | cons next rest => simp [skipSlash]

/-- Resolution looks at the first segment and goes on with the others. -/
lemma scanPath_join_cons (hne : segment ≠ []) (hslash : '/' ∉ segment)
    (hlen : segment.length ≤ nameMax) :
    vfs.scanPath (join '/' (segment :: rest)) =
      match vfs.segmentMount segment with
      | some (kind, slot) => some (entered kind slot (join '/' rest))
      | none => vfs.scanPath (join '/' rest) := by
  obtain ⟨c, tail, rfl⟩ := exists_cons_of_ne_nil hne
  have hhead : (join '/' ((c :: tail) :: rest)).head? = some c := by
    cases rest <;> rfl
  have hc : c ≠ '/' := fun heq => hslash (heq ▸ mem_cons_self)
  rw [scanPath_of_head (fun hnil => by simp [hnil] at hhead)
    (by rw [hhead]; simpa using hc), segmentAt_join hslash hlen, skipSlash_drop_join]
  cases vfs.segmentMount (c :: tail) with
  | some found => rfl
  | none =>
    cases rest with
    | nil => simp [join, scanPath]
    | cons next rest => simp

/-- Segments that name no mount are passed over. -/
lemma scanPath_join_append (hne : ∀ s ∈ dirs, s ≠ []) (hslash : ∀ s ∈ dirs, '/' ∉ s)
    (hlen : ∀ s ∈ dirs, s.length ≤ nameMax) (hnone : ∀ s ∈ dirs, vfs.segmentMount s = none) :
    vfs.scanPath (join '/' (dirs ++ rest)) = vfs.scanPath (join '/' rest) := by
  induction dirs with
  | nil => rfl
  | cons dir dirs ih =>
    rw [forall_mem_cons] at hne hslash hlen hnone
    rw [cons_append, scanPath_join_cons hne.1 hslash.1 hlen.1, hnone.1]
    exact ih hne.2 hslash.2 hlen.2 hnone.2

lemma entered_join (hne : ∀ s ∈ rest, s ≠ []) (hfits : (join '/' rest).length ≤ pathMax) :
    entered kind slot (join '/' rest) = within kind slot rest := by
  cases rest with
  | nil => rfl
  | cons first others =>
    rw [entered, within, if_neg (join_cons_ne_nil (hne first mem_cons_self) others),
      if_neg (cons_ne_nil _ _), copyName, take_of_length_le hfits]

lemma parseRootChild_join (hne : segment ≠ []) (hslash : '/' ∉ segment)
    (hfits : (join '/' (segment :: rest)).length ≤ pathMax) :
    parseRootChild ('/' :: join '/' (segment :: rest)) = some (segment, join '/' rest) := by
  have hlen : segment.length ≤ nameMax := (length_join_cons segment rest).trans hfits
  rw [parseRootChild, if_neg (join_cons_ne_nil hne rest)]
  rw [segmentAt_join hslash hlen]
  rcases rest with _ | ⟨next, others⟩
  · simp [join]
  have hchild : (join '/' (next :: others)).length ≤ pathMax := by
    rw [join_cons_cons, length_append, length_cons] at hfits
    omega
  simp [hchild]

end Scan

section Paths

variable {vfs : Vfs Dev} (path : NormalPath)

lemma NormalPath.parsePath_text (hne : path.segments ≠ []) : vfs.parsePath path.text =
      match vfs.scanPath (join '/' path.segments) with
      | some parsed => some parsed
      | none => (parseRootChild path.text).map fun (segment, child) =>
        match vfs.segmentMount segment with
        | some (kind, slot) => entered kind slot child
        | none => vfs.rootChild (join '/' path.segments) := by
  have hjoin : join '/' path.segments ≠ [] := by
    obtain ⟨first, others, heq⟩ := exists_cons_of_ne_nil hne
    rw [heq]
    exact join_cons_ne_nil (path.nonempty first (by simp [heq])) others
  rw [parsePath, if_neg (by simp [NormalPath.text, hjoin])]
  rfl

/-- A path that names no mount lies in the root file system. -/
lemma NormalPath.parsePath_root (hfits : (join '/' path.segments).length ≤ pathMax)
    (hnone : ∀ segment ∈ path.segments, vfs.segmentMount segment = none) :
    vfs.parsePath path.text = some (withinRoot vfs path.segments) := by
  rcases hsegs : path.segments with _ | ⟨first, others⟩
  · simp [parsePath, NormalPath.text, hsegs, join, withinRoot]
  have hscan : vfs.scanPath (join '/' path.segments) = none := by
    have hpass := @scanPath_join_append _ path.segments [] vfs path.nonempty path.noSlash
      (fun s hs => (length_le_join hs).trans hfits) hnone
    rw [append_nil] at hpass
    rw [hpass, join, scanPath]
  have hfirst : first ∈ path.segments := by simp [hsegs]
  have hchild : parseRootChild path.text = some (first, join '/' others) := by
    rw [hsegs] at hfits
    rw [NormalPath.text, hsegs]
    exact parseRootChild_join (path.nonempty first hfirst) (path.noSlash first hfirst) hfits
  rw [path.parsePath_text (by simp [hsegs]), hscan, hchild]
  simp only [Option.map_some, hnone first hfirst]
  rw [rootChild, copyName, take_of_length_le hfits, withinRoot, if_neg (by simp), hsegs]

/-- The first segment that names a mount decides where a path lies. -/
lemma NormalPath.parsePath_mount (hsegs : path.segments = dirs ++ name :: rest)
    (hdirs : ∀ s ∈ dirs, s.length ≤ nameMax ∧ vfs.segmentMount s = none)
    (hlen : name.length ≤ nameMax) (hname : vfs.segmentMount name = some (kind, slot)) :
    vfs.parsePath path.text = some (entered kind slot (join '/' rest)) := by
  have hsub : ∀ s ∈ dirs, s ∈ path.segments := fun s hs => by simp [hsegs, hs]
  have hmem : name ∈ path.segments := by simp [hsegs]
  have hscan : vfs.scanPath (join '/' path.segments) =
      some (entered kind slot (join '/' rest)) := by
    rw [hsegs, scanPath_join_append (fun s hs => path.nonempty s (hsub s hs))
      (fun s hs => path.noSlash s (hsub s hs)) (fun s hs => (hdirs s hs).1)
      (fun s hs => (hdirs s hs).2),
      scanPath_join_cons (path.nonempty name hmem) (path.noSlash name hmem) hlen, hname]
  rw [path.parsePath_text (by simp [hsegs]), hscan]

end Paths

/-! ## Mounts above a path -/

namespace Namespace

variable {ns : Namespace Dev} {path : NormalPath} {point other : MountPoint}
  {i : Fin mountSlotMax} {vfs : Vfs Dev}
  {segments : List (List Char)} {entry : MountEntry Dev}

lemma exists_slot_of_mem (hpoint : point ∈ ns.mounted) :
    point ∈ fixedPoints ∨ ∃ i, ns.slotPoint i = some point := by
  rw [mounted, mem_append, mem_filterMap] at hpoint
  exact hpoint.imp_right fun ⟨i, _, hi⟩ => ⟨i, hi⟩

lemma target_of_slotPoint (hpoint : ns.slotPoint i = some point) :
    point.target = ns.targets i ∧ point.slot = i.val + 1 := by
  obtain ⟨entry, -, rfl⟩ := Option.map_eq_some_iff.mp hpoint
  exact ⟨rfl, rfl⟩

/-- Every target ends in a name. -/
lemma exists_name (hnamed : ns.Named) (hpoint : point ∈ ns.mounted) :
    ∃ name, point.target.getLast? = some name ∧ name.length ≤ nameMax := by
  rcases exists_slot_of_mem hpoint with hfixed | ⟨i, hi⟩
  · simp only [fixedPoints, mem_cons, not_mem_nil, or_false] at hfixed
    rcases hfixed with rfl | rfl | rfl | rfl | rfl | rfl <;> exact ⟨_, rfl, by decide⟩
  · obtain ⟨entry, hentry, rfl⟩ := Option.map_eq_some_iff.mp hi
    exact ⟨entry.name, hnamed.last i entry hentry⟩

/-- Slot and name determine a mount. -/
lemma eq_of_slot_name (hpoint : point ∈ ns.mounted) (hother : other ∈ ns.mounted)
    (hslot : point.slot = other.slot) (hname : point.target.getLast? = other.target.getLast?) :
    point = other := by
  have hfixedSlot : ∀ p ∈ fixedPoints, p.slot = 0 := by decide
  have hfixed : ∀ p ∈ fixedPoints, ∀ q ∈ fixedPoints,
      p.target.getLast? = q.target.getLast? → p = q := by decide
  rcases exists_slot_of_mem hpoint with hp | ⟨i, hi⟩ <;>
    rcases exists_slot_of_mem hother with hq | ⟨j, hj⟩
  · exact hfixed _ hp _ hq hname
  · rw [hfixedSlot _ hp, (target_of_slotPoint hj).2] at hslot
    omega
  · rw [hfixedSlot _ hq, (target_of_slotPoint hi).2] at hslot
    omega
  · rw [(target_of_slotPoint hi).2, (target_of_slotPoint hj).2] at hslot
    obtain rfl : i = j := Fin.ext (Nat.succ.inj hslot)
    exact Option.some.inj (hi.symm.trans hj)

/-- The name of a mount has an owner. -/
lemma owner_ne_none (hpoint : point ∈ ns.mounted) (hname : point.target.getLast? = some name) :
    ns.owner name ≠ none := by
  intro hnone
  have hall := List.find?_eq_none.mp hnone point hpoint
  exact hall (by simpa using hname)

lemma mem_of_owner (howner : ns.owner name = some point) :
    point ∈ ns.mounted ∧ point.target.getLast? = some name :=
  ⟨mem_of_find?_eq_some howner, by simpa using List.find?_some howner⟩

lemma segmentMount_eq_none (hnamed : ns.Named) :
    ns.vfs.segmentMount segment = none ↔ ns.owner segment = none := by
  rw [segmentMount_eq_owner hnamed, Option.map_eq_none_iff]

/-- What the condition asks for is enough. -/
lemma resolvesRight_of_agrees (hnamed : ns.Named) (hagrees : ns.Agrees path) :
    ns.ResolvesRight path := by
  rcases hagrees with ⟨hfits, hnone⟩ | ⟨point, hpoint, honly⟩
  · refine ⟨fun point hlong => ?_, fun _ => ?_⟩
    · -- a target above the path would end in one of its segments
      obtain ⟨name, hname, -⟩ := exists_name hnamed hlong.1
      have hmem : name ∈ path.segments := hlong.2.1.subset (mem_of_getLast? hname)
      exact absurd (hnone name hmem) (owner_ne_none hlong.1 hname)
    · exact path.parsePath_root hfits fun s hs => (segmentMount_eq_none hnamed).mpr (hnone s hs)
  refine ⟨fun longest hlong => ?_, fun hnone => absurd honly.above (hnone point hpoint)⟩
  obtain rfl := honly.only longest hlong.1 hlong.2.1
  obtain ⟨name, hname, hlen⟩ := exists_name hnamed hpoint
  obtain ⟨rest, hrest⟩ := honly.above
  have htgt : longest.target = longest.target.dropLast ++ [name] :=
    (dropLast_append_getLast? name hname).symm
  have hdrop : path.segments.drop longest.target.length = rest := by
    rw [← hrest, drop_left]
  have hsegs : path.segments = longest.target.dropLast ++ name :: rest := by
    rw [← hrest]
    conv_lhs => rw [htgt]
    simp
  have hmount : ns.vfs.segmentMount name = some (longest.kind, longest.slot) := by
    rw [segmentMount_eq_owner hnamed, honly.owned name hname]
    rfl
  have hdirs : ∀ s ∈ longest.target.dropLast,
      s.length ≤ nameMax ∧ ns.vfs.segmentMount s = none := fun s hs =>
    ⟨(honly.unowned s hs).1, (segmentMount_eq_none hnamed).mpr (honly.unowned s hs).2⟩
  have hfits := honly.fits
  rw [path.parsePath_mount hsegs hdirs hlen hmount, hdrop]
  rw [hdrop] at hfits
  rw [entered_join (fun s hs => path.nonempty s (by simp [hsegs, hs])) hfits]

lemma exists_longest (habove : ∃ point ∈ ns.mounted, point.target <+: path.segments) :
    ∃ point, ns.Longest point path := by
  obtain ⟨above, hmem, hprefix⟩ := habove
  have hfilter : above ∈ ns.mounted.filter fun p => decide (p.target <+: path.segments) := by
    simpa using ⟨hmem, hprefix⟩
  cases hmax : (ns.mounted.filter fun p => decide (p.target <+: path.segments)).argmax
      fun p => p.target.length with
  | none =>
    rw [argmax_eq_none.mp hmax] at hfilter
    exact absurd hfilter not_mem_nil
  | some point =>
    have hpoint : point ∈ ns.mounted ∧ point.target <+: path.segments := by
      simpa using argmax_mem hmax
    refine ⟨point, hpoint.1, hpoint.2, fun other hother habove => ?_⟩
    exact le_of_mem_argmax (f := fun p : MountPoint => p.target.length)
      (by simpa using ⟨hother, habove⟩) hmax

lemma within_inj {kind' : MountKind} {slot' : Nat} {rest' : List (List Char)}
    (heq : within kind slot rest = within kind' slot' rest') :
    kind = kind' ∧ slot = slot' ∧ join '/' rest = join '/' rest' := by
  unfold within at heq
  by_cases hrest : rest = [] <;> by_cases hrest' : rest' = [] <;> simp_all [join]

/-- The first segment of a path that has an owner. -/
lemma exists_first_owned (howned : ¬ ∀ segment ∈ segments, ns.owner segment = none) :
    ∃ dirs name rest first, segments = dirs ++ name :: rest ∧
      (∀ segment ∈ dirs, ns.owner segment = none) ∧ ns.owner name = some first := by
  rcases hfind : segments.find? fun segment => (ns.owner segment).isSome with _ | name
  · exact absurd (fun segment hs => by simpa using List.find?_eq_none.mp hfind segment hs) howned
  obtain ⟨hname, dirs, rest, hsegs, hdirs⟩ := List.find?_eq_some_iff_append.mp hfind
  obtain ⟨first, hfirst⟩ := Option.isSome_iff_exists.mp hname
  exact ⟨dirs, name, rest, first, hsegs, fun s hs => by simpa using hdirs s hs, hfirst⟩

lemma withinRoot_of_ne_nil (hne : segments ≠ []) :
    withinRoot vfs segments = within vfs.rootMount.1 vfs.rootMount.2 segments := by
  rw [withinRoot, within, if_neg hne, if_neg hne]

/-- A path that is resolved right, and in a mount that its first owned segment
belongs to, is below that mount's target only. -/
lemma onlyAbove_of_longest {first : MountPoint} (hsegs : path.segments = dirs ++ name :: rest)
    (hdirs : ∀ segment ∈ dirs, segment.length ≤ nameMax ∧ ns.owner segment = none)
    (hfirst : ns.owner name = some first) (hrest : (join '/' rest).length ≤ pathMax)
    (hnamed : ns.Named)
    (hright : ∀ point, ns.Longest point path → within first.kind first.slot rest =
      within point.kind point.slot (path.segments.drop point.target.length))
    (hlong : ns.Longest point path) : ns.OnlyAbove path point := by
  have hrestDrop : rest = path.segments.drop (dirs.length + 1) := by simp [hsegs]
  -- the texts left after the mount agree, so the target ends where the owned segment does
  have hends : ∀ p, ns.Longest p path → p.target = dirs ++ [name] ∧ p.slot = first.slot := by
    intro p hp
    obtain ⟨-, hslot, hjoin⟩ := within_inj (hright p hp)
    have hlen : dirs.length + 1 = p.target.length := by
      rw [hrestDrop] at hjoin
      exact join_drop_injective path.nonempty (by simp [hsegs]) hp.2.1.length_le hjoin
    refine ⟨?_, hslot.symm⟩
    rw [prefix_iff_eq_take.mp hp.2.1, ← hlen, hsegs]
    simp [take_append]
  obtain ⟨htgt, hslot⟩ := hends point hlong
  have hdrop : path.segments.drop point.target.length = rest := by
    rw [htgt, hrestDrop]
    simp
  have hfirstPoint : first = point := by
    obtain ⟨hmem, hlast⟩ := mem_of_owner hfirst
    exact eq_of_slot_name hmem hlong.1 hslot.symm (by simp [hlast, htgt])
  constructor
  case above => exact hlong.2.1
  case only =>
    intro other hother habove
    rcases (hlong.2.2 other hother habove).lt_or_eq with hlt | heq
    · -- the name of a shorter target would be an owned segment before
      obtain ⟨otherName, hotherName, -⟩ := exists_name hnamed hother
      have hprefix : other.target <+: dirs := by
        rw [htgt, length_append, length_singleton, Nat.lt_succ_iff] at hlt
        exact prefix_of_prefix_length_le habove ⟨name :: rest, hsegs.symm⟩ hlt
      have hmem : otherName ∈ dirs := hprefix.subset (mem_of_getLast? hotherName)
      exact absurd (hdirs otherName hmem).2 (owner_ne_none hother hotherName)
    · have hotherLongest : ns.Longest other path := ⟨hother, habove, by rw [heq]; exact hlong.2.2⟩
      obtain ⟨hotherTarget, hotherSlot⟩ := hends other hotherLongest
      exact eq_of_slot_name hother hlong.1 (hotherSlot.trans hslot.symm)
        (by rw [hotherTarget, htgt])
  case unowned =>
    rw [htgt, dropLast_concat]
    exact hdirs
  case owned =>
    intro segment hseg
    rw [htgt, List.getLast?_concat, Option.some.injEq] at hseg
    rw [← hseg, hfirst, hfirstPoint]
  case fits =>
    rw [hdrop]
    exact hrest

/-- What the condition asks for is needed, for a path that is not cut. -/
lemma agrees_of_resolvesRight (hnamed : ns.Named)
    (hfits : (join '/' path.segments).length ≤ pathMax)
    (hright : ns.ResolvesRight path) : ns.Agrees path := by
  by_cases hall : ∀ segment ∈ path.segments, ns.owner segment = none
  · exact .inl ⟨hfits, hall⟩
  obtain ⟨dirs, name, rest, first, hsegs, hdirs, hfirst⟩ := exists_first_owned hall
  have hlengths : ∀ s ∈ path.segments, s.length ≤ nameMax := fun s hs =>
    (length_le_join hs).trans hfits
  have hdirsShort : ∀ s ∈ dirs, s.length ≤ nameMax ∧ ns.owner s = none := fun s hs =>
    ⟨hlengths s (by simp [hsegs, hs]), hdirs s hs⟩
  have hrestLt : (join '/' rest).length < (join '/' path.segments).length := by
    have hlt := @length_join_drop_lt _ '/' path.segments path.nonempty 0 (dirs.length + 1)
      (Nat.succ_pos _) (length_pos_of_mem (a := name) (by simp [hsegs]))
    simpa [hsegs] using hlt
  have hrestFits := hrestLt.le.trans hfits
  have hparse : ns.vfs.parsePath path.text = some (within first.kind first.slot rest) := by
    have hmount : ns.vfs.segmentMount name = some (first.kind, first.slot) := by
      rw [segmentMount_eq_owner hnamed, hfirst]
      rfl
    rw [path.parsePath_mount hsegs (fun s hs => ⟨(hdirsShort s hs).1,
        (segmentMount_eq_none hnamed).mpr (hdirs s hs)⟩) (hlengths name (by simp [hsegs])) hmount,
      entered_join (fun s hs => path.nonempty s (by simp [hsegs, hs])) hrestFits]
  rw [ResolvesRight, hparse] at hright
  by_cases habove : ∃ point ∈ ns.mounted, point.target <+: path.segments
  · obtain ⟨point, hlong⟩ := exists_longest habove
    exact .inr ⟨point, hlong.1, onlyAbove_of_longest hsegs hdirsShort hfirst hrestFits hnamed
      (fun p hp => Option.some.inj (hright.1 p hp)) hlong⟩
  · -- resolved in the root, the path would keep all its segments
    have hroot := Option.some.inj (hright.2 fun p hp hprefix => habove ⟨p, hp, hprefix⟩)
    rw [withinRoot_of_ne_nil (by simp [hsegs])] at hroot
    rw [(within_inj hroot).2.2] at hrestLt
    exact absurd hrestLt (lt_irrefl _)

/-! ## Targets of unmounts -/

lemma exists_of_findDynamicMount (hfind : vfs.findDynamicMount name = some i) :
    ∃ entry, vfs.mounts i = some entry ∧ entry.name = name := by
  simpa [Option.any_eq_true] using List.find?_some hfind

lemma unmountsRight_iff (hnamed : ns.Named) (target : List Char) :
    ns.UnmountsRight target ↔ ns.TargetAgrees target := by
  constructor
  · intro hright i entry hentry hname
    cases hfind : ns.vfs.findDynamicMount entry.name with
    | none => exact absurd hfind (by
        simpa [findDynamicMount, Option.any_eq_true] using ⟨i, entry, hentry, rfl⟩)
    | some j =>
      obtain ⟨found, hfound, heq⟩ := exists_of_findDynamicMount hfind
      obtain rfl : j = i := hnamed.distinct j i found entry hfound hentry heq
      exact hright j (by rw [targetSlot, hname]; exact hfind)
  · intro hagrees i hslot
    obtain ⟨name, hname, hfind⟩ := Option.bind_eq_some_iff.mp hslot
    obtain ⟨entry, hentry, rfl⟩ := exists_of_findDynamicMount hfind
    exact hagrees i entry hentry hname

/-! ## Runs -/

lemma named_initial (fat32 nxfs : Option (Volume Dev)) (rootKind : MountKind) (rootSlot : Nat) :
    (initial fat32 nxfs rootKind rootSlot).Named :=
  ⟨fun _ _ h => (nomatch h), fun _ _ _ _ h => (nomatch h)⟩

lemma length_of_resolveMountTargetName (hname : resolveMountTargetName target = some name) :
    name.length ≤ nameMax := by
  have hseg : name = segmentAt (lastPart target target) := by
    unfold resolveMountTargetName at hname
    dsimp only at hname
    split_ifs at hname
    split at hname
    · exact (Option.some.inj hname).symm
    · split_ifs at hname
      exact (Option.some.inj hname).symm
  rw [hseg]
  exact ( takeWhile_prefix _).length_le.trans (length_take_le _ _)

lemma findDynamicMount_eq_none
    (hfind : vfs.findDynamicMount name = none) (hentry : vfs.mounts i = some entry) :
    entry.name ≠ name := by
  simpa [hentry] using List.find?_eq_none.mp hfind i (mem_finRange i)

/-- A mount is stored under the last segment of its target, which no other slot has. -/
lemma Named.mount (hnamed : ns.Named) {slot : Fin mountSlotMax}
    (hprep : ns.vfs.prepareDynamicMountTarget target = .ok (entry.name, slot)) :
    Named ⟨ns.vfs.storeMountEntry slot entry, ns.recordTarget target⟩ := by
  obtain ⟨hname, hnew, hfree⟩ := prepareDynamicMountTarget_ok hprep
  have htargets : ns.recordTarget target = update ns.targets slot (segments '/' target) := by
    rw [recordTarget, hfree]
  constructor
  case last =>
    intro i found hfound
    by_cases hi : i = slot
    · subst hi
      simp only [storeMountEntry, update_self, Option.some.injEq] at hfound
      subst hfound
      simp only [htargets, update_self]
      exact ⟨getLast?_of_resolveMountTargetName hname, length_of_resolveMountTargetName hname⟩
    · simp only [storeMountEntry, update_of_ne hi] at hfound
      simp only [htargets, update_of_ne hi]
      exact hnamed.last i found hfound
  case distinct =>
    intro i j first second hfirst hsnd hnames
    simp only [storeMountEntry] at hfirst hsnd
    by_cases hi : i = slot <;> by_cases hj : j = slot
    · rw [hi, hj]
    · subst hi
      simp only [update_self, Option.some.injEq, update_of_ne hj] at hfirst hsnd
      subst hfirst
      exact absurd hnames.symm (findDynamicMount_eq_none hnew hsnd)
    · subst hj
      simp only [update_self, Option.some.injEq, update_of_ne hi] at hfirst hsnd
      subst hsnd
      exact absurd hnames (findDynamicMount_eq_none hnew hfirst)
    · rw [update_of_ne hi] at hfirst
      rw [update_of_ne hj] at hsnd
      exact hnamed.distinct i j first second hfirst hsnd hnames

/-- Emptying a slot leaves the others as they are. -/
lemma Named.clear (hnamed : ns.Named) (slot : Fin mountSlotMax) :
    Named { ns with vfs := { ns.vfs with mounts := update ns.vfs.mounts slot none } } := by
  have hkept : ∀ i entry, update ns.vfs.mounts slot none i = some entry →
      ns.vfs.mounts i = some entry := by
    intro i entry hentry
    by_cases hi : i = slot
    · simp [hi] at hentry
    · rwa [update_of_ne hi] at hentry
  exact ⟨fun i entry h => hnamed.last i entry (hkept i entry h), fun i j first second hi hj =>
    hnamed.distinct i j first second (hkept i first hi) (hkept j second hj)⟩

lemma Named.perform (hnamed : ns.Named) (call : MountCall Dev) : (ns.perform call).Named := by
  cases call with
  | mount disks kind diskIndex partIndex target =>
    rw [Namespace.perform]
    cases hmount : mountFs disks ns.vfs kind diskIndex partIndex target with
    | error e => exact hnamed
    | ok vfs =>
      obtain ⟨slot, entry, hprep, -, -, rfl⟩ := mountFs_ok hmount
      exact hnamed.mount hprep
  | umount disks target =>
    rw [Namespace.perform]
    cases humount : umount disks ns.vfs target with
    | error e => exact hnamed
    | ok vfs =>
      obtain ⟨slot, -, rfl⟩ := umount_ok humount
      exact hnamed.clear slot

lemma Named.run (hnamed : ns.Named) (calls : List (MountCall Dev)) : (ns.run calls).Named :=
  GuardedRuns.run_invariant Named (fun _ call hnamed => hnamed.perform call) hnamed calls

/-- No run of mounts and unmounts leads to two slots with mounts at one target. The fixed mounts
have no slot: a mount at `/event` is made beside that of the events. -/
theorem injOn_targets (fat32 nxfs : Option (Volume Dev)) (rootKind : MountKind) (rootSlot : Nat)
    (calls : List (MountCall Dev)) :
    let ns := (initial fat32 nxfs rootKind rootSlot).run calls
    Set.InjOn ns.targets {i | ns.vfs.mounts i ≠ none} := by
  intro ns i hi j hj hsame
  have hnamed : ns.Named := (named_initial ..).run calls
  obtain ⟨entry, hentry⟩ := Option.ne_none_iff_exists'.mp hi
  obtain ⟨other, hother⟩ := Option.ne_none_iff_exists'.mp hj
  have hlast := (hnamed.last i entry hentry).1
  rw [hsame, (hnamed.last j other hother).1] at hlast
  exact hnamed.distinct i j entry other hentry hother (Option.some.inj hlast).symm

/-- After every run of mounts and unmounts, a path is resolved in the mount at the
longest target above it, or in the root, if and only if it has no segment that
would be taken for another mount; and an unmount finds the mount made at its target
if and only if no mount of that name was made elsewhere. A path that is longer than
the buffers is resolved right if the rest that is left for the mount fits. -/
theorem resolution_iff (fat32 nxfs : Option (Volume Dev)) (rootKind : MountKind) (rootSlot : Nat)
    (calls : List (MountCall Dev)) (path : NormalPath) (target : List Char) :
    let ns := (initial fat32 nxfs rootKind rootSlot).run calls
    (ns.Agrees path → ns.ResolvesRight path) ∧ ((join '/' path.segments).length ≤ pathMax →
        (ns.ResolvesRight path ↔ ns.Agrees path)) ∧
      (ns.UnmountsRight target ↔ ns.TargetAgrees target) := by
  have hnamed := (named_initial fat32 nxfs rootKind rootSlot).run calls
  exact ⟨resolvesRight_of_agrees hnamed, fun hfits => ⟨agrees_of_resolvesRight hnamed hfits,
    resolvesRight_of_agrees hnamed⟩, unmountsRight_iff hnamed target⟩

def oneDisk : Disks Unit where
  get := fun _ => some ()
  blockCount := fun _ => 4096
  partitionGet := fun _ _ => some 2048
  probeSource := fun kind _ => kind = .nxfs
  acquireDevice := fun _ => true
  mount := fun _ _ => true
  flush := fun _ _ => true

/-- A volume mounted at `/a/b` on a system with a FAT32 root. -/
def mountedAtAB : Namespace Unit :=
  (initial (some ⟨(), 0⟩) none .none 0).run [.mount oneDisk .nxfs 0 (some 0) ['/', 'a', '/', 'b']]

def pathCB : NormalPath := ⟨[['c'], ['b']], by decide, by decide⟩

/-- The mount made at `/a/b` is reached by `/c/b`, which no target is above, and an
unmount of `/c/b` finds it. -/
theorem mount_reached_by_other_path :
    (∀ point ∈ mountedAtAB.mounted, ¬ point.target <+: pathCB.segments) ∧
      mountedAtAB.vfs.parsePath pathCB.text = some (within .nxfs 1 []) ∧
      ¬ mountedAtAB.ResolvesRight pathCB ∧ ¬ mountedAtAB.UnmountsRight pathCB.text := by
  have habove : ∀ point ∈ mountedAtAB.mounted, ¬ point.target <+: pathCB.segments := by
    decide +kernel
  have hparse : mountedAtAB.vfs.parsePath pathCB.text = some (within .nxfs 1 []) := by
    decide +kernel
  refine ⟨habove, hparse, fun hright => ?_, fun hright => ?_⟩
  · exact absurd (hparse.symm.trans (hright.2 habove)) (by decide +kernel)
  · exact absurd (hright 0 (by decide +kernel)) (by decide +kernel)

end Namespace

end NexOS.Vfs
