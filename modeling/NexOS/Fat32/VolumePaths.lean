import NexOS.Fat32.VolumeState
import NexOS.Lib.PathText

/-! # Paths on a volume

A path is normal if its segments are names without slashes, and none of them is a dot
name. Looking it up goes from the root directory through directories of the volume, and
the entry that is found in one of them is no dot entry.
-/

namespace NexOS.Fat32

open List PathText

/-- A name that can be a segment of a normal path. -/
structure ProperSegment (segment : Name) : Prop where
  ne_nil : segment ≠ []
  noSlash : slash ∉ segment
  notDot : isDotName segment = false

/-- A path that is not the root. -/
structure NormalPath where
  parents : List Name
  name : Name
  parents_proper : ∀ segment ∈ parents, ProperSegment segment
  name_proper : ProperSegment name

namespace NormalPath

/-- The path as it is written. -/
def text (path : NormalPath) : Name := join slash (path.parents ++ [path.name])

def parentText (path : NormalPath) : Name := join slash path.parents

end NormalPath

variable {segments parents : List Name} {segment name : Name}

lemma ProperSegment.exists_cons (hseg : ProperSegment segment) :
    ∃ ch rest, segment = ch :: rest ∧ ch ≠ slash := by
  obtain ⟨ch, rest, rfl⟩ := exists_cons_of_ne_nil hseg.ne_nil
  exact ⟨ch, rest, rfl, fun heq => hseg.noSlash (heq ▸ mem_cons_self)⟩

variable (hprop : ∀ segment ∈ segments, ProperSegment segment)

include hprop

lemma join_eq_nil_iff : join slash segments = [] ↔ segments = [] := by
  cases segments with
  | nil => simp [join]
  | cons segment rest =>
    have hne := @join_cons_ne_nil _ slash _ (hprop segment mem_cons_self).ne_nil rest
    simp [hne]

/-- A normal path does not begin with a slash. -/
lemma dropWhile_join : (join slash segments).dropWhile (fun ch => decide (ch = slash)) =
      join slash segments := by
  rcases segments with _ | ⟨segment, rest⟩
  · rfl
  obtain ⟨ch, tail, rfl, hch⟩ := (hprop segment mem_cons_self).exists_cons
  have hcons : ∃ others, join slash ((ch :: tail) :: rest) = ch :: others := by
    cases rest with
    | nil => exact ⟨tail, rfl⟩
    | cons next rest => exact ⟨_, rfl⟩
  obtain ⟨others, hothers⟩ := hcons
  rw [hothers, dropWhile_cons_of_neg (by simpa using hch)]

lemma length_le_length_join : segments.length ≤ (join slash segments).length := by
  induction segments with
  | nil => exact Nat.zero_le _
  | cons segment rest ih =>
    rw [forall_mem_cons] at hprop
    have hpos := length_pos_iff.mpr hprop.1.ne_nil
    rcases rest with _ | ⟨next, rest⟩
    · exact hpos
    have hrest := ih hprop.2
    simp only [join_cons_cons, length_append, length_cons] at hrest ⊢
    omega

omit hprop

namespace Geometry

open ChainTable

/-! ## Texts and segments -/

lemma pathNextSegment_join (hseg : ProperSegment segment)
    (hprop : ∀ segment ∈ segments, ProperSegment segment) :
    pathNextSegment (join slash (segment :: segments)) =
      if nameBufferSize ≤ segment.length then .tooLong
      else .found segment (join slash segments) := by
  have hall : ∀ segment' ∈ segment :: segments, ProperSegment segment' :=
    forall_mem_cons.mpr ⟨hseg, hprop⟩
  have hrest : ((join slash (segment :: segments)).drop segment.length).dropWhile
      (fun ch => decide (ch = slash)) = join slash segments := by
    cases segments with
    | nil => simp [join]
    | cons next rest =>
      rw [join_cons_cons, drop_left, dropWhile_cons_of_pos (by simp), dropWhile_join hprop]
  rw [pathNextSegment, dropWhile_join hall, if_neg ((join_eq_nil_iff hall).not.mpr (by simp)),
    takeWhile_join hseg.noSlash]
  dsimp only
  rw [hrest]

/-- Nothing is cut off at the end of a text that ends in a segment, and the segment is
what comes after the last slash. -/
lemma ProperSegment.at_end (hname : ProperSegment name) (front : Name) :
    ((front ++ name).reverse.dropWhile fun ch => decide (ch = slash)).reverse = front ++ name ∧
      ((front ++ slash :: name).reverse.takeWhile fun ch => decide (ch ≠ slash)).reverse =
        name := by
  have hall : ∀ c ∈ name.reverse, decide (c ≠ slash) = true := fun c hc =>
    decide_eq_true fun heq => hname.noSlash (heq ▸ mem_reverse.mp hc)
  obtain ⟨ch, rest, hlast⟩ := exists_cons_of_ne_nil (reverse_ne_nil_iff.mpr hname.ne_nil)
  have hch : ¬ ch = slash := by simpa using hall ch (hlast ▸ mem_cons_self)
  constructor
  · rw [reverse_append, hlast, cons_append, dropWhile_cons_of_neg (by simpa using hch),
      ← cons_append, ← hlast, ← reverse_append, reverse_reverse]
  · rw [reverse_append, reverse_cons, append_assoc, takeWhile_append_of_pos hall]
    simp

lemma splitParentChildPath_single (hname : ProperSegment name) :
    splitParentChildPath name =
      if nameBufferSize < name.length + 1 then none else some ([], name) := by
  have htrim := (ProperSegment.at_end hname []).1
  have htake : name.reverse.takeWhile (fun ch => decide (ch ≠ slash)) = name.reverse :=
    takeWhile_eq_self_iff.mpr fun c hc =>
      decide_eq_true fun heq => hname.noSlash (heq ▸ mem_reverse.mp hc)
  simp only [nil_append] at htrim
  simp only [splitParentChildPath, htrim, htake, reverse_reverse]
  rw [if_neg hname.ne_nil, if_pos hname.noSlash]

lemma splitParentChildPath_slash (hname : ProperSegment name) (parent : Name) :
    splitParentChildPath (parent ++ slash :: name) =
      if pathBufferSize < parent.length + 1 ∨ nameBufferSize < name.length + 1 then none
      else some (parent, name) := by
  have htrim := (ProperSegment.at_end hname (parent ++ [slash])).1
  have htake := (ProperSegment.at_end hname parent).2
  have hpar :
      (parent ++ slash :: name).take ((parent ++ slash :: name).length - (name.length + 1)) =
      parent := take_left' (by simp)
  simp only [append_assoc, singleton_append] at htrim
  simp only [splitParentChildPath, htrim, htake, hpar]
  rw [if_neg (by simp), if_neg (by simp)]
  simp only [hname.ne_nil, false_or]

lemma splitParentChildPath_text (path : NormalPath) :
    splitParentChildPath path.text =
      if pathBufferSize < path.parentText.length + 1 ∨
        nameBufferSize < path.name.length + 1 then none
      else some (path.parentText, path.name) := by
  obtain ⟨parents, name, hpars, hname⟩ := path
  by_cases hnil : parents = []
  · subst hnil
    have hsize : pathBufferSize ≠ 0 := by decide
    have hsplit := splitParentChildPath_single hname
    simpa [NormalPath.text, NormalPath.parentText, join, hsize] using hsplit
  · have htext : NormalPath.text ⟨parents, name, hpars, hname⟩ =
        join slash parents ++ slash :: name := join_concat hnil name
    rw [htext, splitParentChildPath_slash hname]
    rfl

variable {g : Geometry} {d d' : Disk} {aside : Option Nat} {current dir node : Node}

/-- The lookup of a path, segment by segment. -/
def findSegments (g : Geometry) (disk : Disk) : Node → List Name → Option Node
  | current, [] => some current
  | current, segment :: rest =>
    if nameBufferSize ≤ segment.length then none
    else
      match g.findIn disk current segment with
      | none => none
      | some node =>
        if rest = [] then some node
        else if node.file.isDir = false then none
        else findSegments g disk node rest

/-- A segment is found, and the rest in the directory that it leads to. -/
lemma findSegments_cons_iff {rest : List Name} :
    g.findSegments d current (segment :: rest) = some node ↔
      segment.length < nameBufferSize ∧ ∃ found, g.findIn d current segment = some found ∧
        if rest = [] then found = node
        else found.file.isDir = true ∧ g.findSegments d found rest = some node := by
  rw [findSegments]
  cases g.findIn d current segment with
  | none => simp
  | some found =>
    split_ifs <;> simp_all

lemma findPathFrom_join (hprop : ∀ segment ∈ segments, ProperSegment segment) (hne : segments ≠ [])
    {rounds : Nat} (hrounds : segments.length ≤ rounds) :
    g.findPathFrom d rounds current (join slash segments) = g.findSegments d current segments := by
  induction segments generalizing current rounds with
  | nil => exact absurd rfl hne
  | cons segment rest ih =>
    obtain ⟨rounds, rfl⟩ := Nat.exists_eq_add_of_lt (Nat.lt_of_lt_of_le (Nat.succ_pos _) hrounds)
    rw [forall_mem_cons] at hprop
    rw [findPathFrom, pathNextSegment_join hprop.1 hprop.2, findSegments]
    by_cases hlong : nameBufferSize ≤ segment.length
    · rw [if_pos hlong, if_pos hlong]
    rw [if_neg hlong, if_neg hlong]
    dsimp only
    rcases g.findIn d current segment with _ | node
    · rfl
    dsimp only
    rw [if_congr (join_eq_nil_iff hprop.2) rfl rfl]
    by_cases hrest : rest = []
    · rw [if_pos hrest, if_pos hrest]
    · rw [if_neg hrest, if_neg hrest, ih hprop.2 hrest (by simpa using hrounds)]

lemma findPath_join (hprop : ∀ segment ∈ segments, ProperSegment segment) :
    g.findPath d (join slash segments) = g.findSegments d g.getRootDir segments := by
  rw [findPath, dropWhile_join hprop, if_congr (join_eq_nil_iff hprop) rfl rfl]
  by_cases hne : segments = []
  · subst hne
    rfl
  · rw [if_neg hne, findPathFrom_join hprop hne (length_le_length_join hprop)]

lemma findSegments_concat (hfound : g.findSegments d current (parents ++ [name]) = some node) :
    ∃ dir, g.findSegments d current parents = some dir ∧ (parents ≠ [] → dir.file.isDir = true) ∧
      g.findIn d dir name = some node ∧ name.length < nameBufferSize := by
  induction parents generalizing current with
  | nil =>
    obtain ⟨hlen, found, hin, hrest⟩ := findSegments_cons_iff.mp hfound
    rw [if_pos rfl] at hrest
    exact ⟨current, rfl, fun hne => absurd rfl hne, hrest ▸ hin, hlen⟩
  | cons first rest ih =>
    obtain ⟨hfirst, found, hin, hrest⟩ := findSegments_cons_iff.mp hfound
    rw [if_neg (by simp)] at hrest
    obtain ⟨dir, hfind, hisDir, hname, hlen⟩ := ih hrest.2
    refine ⟨dir, findSegments_cons_iff.mpr ⟨hfirst, found, hin, ?_⟩, fun _ => ?_, hname, hlen⟩
    · split
      next hnil =>
        subst hnil
        exact Option.some.inj hfind
      · exact ⟨hrest.1, hfind⟩
    · by_cases hnil : rest = []
      · subst hnil
        rw [← Option.some.inj hfind]
        exact hrest.1
      · exact hisDir hnil

/-- The parent directory of a path that is found. -/
lemma exists_parent_of_findPath {path : NormalPath} (hfound : g.findPath d path.text = some node) :
    ∃ dir, g.findParent d path.parentText = some dir ∧ g.findIn d dir path.name = some node ∧
      path.name.length < nameBufferSize := by
  obtain ⟨parents, name, hpars, hname⟩ := path
  simp only [NormalPath.text, NormalPath.parentText] at hfound ⊢
  have hall : ∀ segment ∈ parents ++ [name], ProperSegment segment := by
    simp only [mem_append, mem_singleton]
    rintro segment (hseg | rfl)
    · exact hpars segment hseg
    · exact hname
  rw [findPath_join hall] at hfound
  obtain ⟨dir, hdir, hisDir, hin, hlen⟩ := findSegments_concat hfound
  refine ⟨dir, ?_, hin, hlen⟩
  rw [findParent, if_congr (join_eq_nil_iff hpars) rfl rfl, findPath_join hpars, hdir]
  by_cases hnil : parents = []
  · subst hnil
    exact hdir
  · rw [if_neg hnil]
    dsimp only
    rw [if_neg (by simp [hisDir hnil])]

/-! ## Entries that are found -/

lemma isDotName_of_sameName {text : Name} (hdot : isDotName text = true)
    (hsame : sameName text name = true) : isDotName name = true := by
  rw [sameName, decide_eq_true_eq] at hsame
  rw [isDotName, decide_eq_true_eq] at hdot ⊢
  have hlower : ∀ ch : UInt8, toLower ch = toLower dot → ch = dot := by
    apply forall_byte
    decide +kernel
  rcases hdot with rfl | rfl
  · obtain ⟨ch, rest, rfl, hch, hrest⟩ := map_eq_cons_iff.mp hsame.symm
    rw [hlower ch hch, map_eq_nil_iff.mp hrest]
    exact .inl rfl
  · obtain ⟨ch, rest, rfl, hch, hrest⟩ := map_eq_cons_iff.mp hsame.symm
    obtain ⟨next, rest, rfl, hnext, hrest⟩ := map_eq_cons_iff.mp hrest
    rw [hlower ch hch, hlower next hnext, map_eq_nil_iff.mp hrest]
    exact .inr rfl

/-- A dot entry is found under dot names only. -/
lemma isDot_eq_false_of_matches {entry : Entry} (hmatch : entry.matches name = true)
    (hname : isDotName name = false) : entry.isDot = false := by
  by_contra hisDot
  have hdot := Entry.isDotName_of_isDot (Bool.not_eq_false _ ▸ hisDot)
  rw [Entry.matches, Bool.or_eq_true] at hmatch
  rcases hmatch with hsame | hsame
  · rw [isDotName_of_sameName hdot.1 hsame] at hname
    exact Bool.noConfusion hname
  · rw [isDotName_of_sameName hdot.2 hsame] at hname
    exact Bool.noConfusion hname

/-- The entry that a lookup in a directory has found. -/
structure Finds (g : Geometry) (disk : Disk) (dir : Node) (node : Node) (entry : Entry) : Prop where
  isDir : dir.file.isDir = true
  mem : entry ∈ entries (g.dirSlots disk dir.file.firstCluster)
  notDot : entry.isDot = false
  file_eq : node.file = entry.file
  place_eq : node.place = g.rawEntryPosition disk dir.file.firstCluster entry.file.direntIndex

lemma exists_finds (hname : isDotName name = false) (hfound : g.findIn d dir name = some node) :
    ∃ entry, Finds g d dir node entry := by
  unfold findIn at hfound
  split_ifs at hfound with hdir
  rw [findInDirectory_eq, Option.map_map, Option.map_eq_some_iff] at hfound
  obtain ⟨entry, hentry, rfl⟩ := hfound
  have hmatch : entry.matches name = true := by simpa using find?_some hentry
  exact ⟨entry, by simpa using hdir, mem_of_find?_eq_some hentry,
    isDot_eq_false_of_matches hmatch hname, rfl, rfl⟩

lemma Finds.entryOf_eq {entry : Entry} (hfinds : Finds g d dir node entry) :
    entryOf (g.dirSlots d dir.file.firstCluster) entry.file.direntIndex = some entry :=
  entryOf_eq_some_iff.mpr ⟨hfinds.mem, rfl⟩

end Geometry

end NexOS.Fat32
