import NexOS.Fat32.Volume
import NexOS.Lib.PathText
import NexOS.Nxfs.FileSystem

/-! # Splitting a path

Both file systems cut a path in front of its last name. For a path of slashes only the length in
`nxfs_split_parent_child_path` falls below zero, and the scan runs over the end of the text.
-/

namespace NexOS.Nxfs

open List PathText

/-- `nxfs_split_parent_child_path` for buffers of the given sizes, without a result where the scan
runs over the end of the text. The length loses the slashes at the end first and then those at the
front. -/
def splitPath (parentSize nameSize : Nat) (path : List UInt8) :
    Option (Option (List UInt8 × List UInt8)) :=
  let len := (path.reverse.dropWhile (· = slash)).length
  let rest := path.dropWhile (· = slash)
  let last := (len + wordLimit - (path.length - rest.length)) % wordLimit
  let text := rest.take last
  let name := (text.reverse.takeWhile (· ≠ slash)).reverse
  let parent := text.take (last - (name.length + 1))
  if parentSize = 0 ∨ nameSize = 0 ∨ last = 0 then some none
  else if rest.length < last then none
  else if slash ∉ text then if nameSize < last + 1 then some none else some (some ([], text))
  else if parentSize < parent.length + 1 ∨ nameSize < name.length + 1 then some none
  else some (if name = [] then none else some (parent, name))

/-- The path ends in the name, up to slashes, and `front` is what stands before the name. -/
structure EndsIn (path front name back : List UInt8) : Prop where
  eq : path = front ++ name ++ back
  ne_nil : name ≠ []
  noSlash : slash ∉ name
  front : front = [] ∨ ∃ dir, front = dir ++ [slash]
  back : ∀ ch ∈ back, ch = slash

/-- The directory of the name: what stands before it, without slashes at the front. -/
def parentOf (front : List UInt8) : List UInt8 :=
  front.dropLast.dropWhile (· = slash)

variable {path front name back : List UInt8}

lemma exists_endsIn (hpath : ∃ ch ∈ path, ch ≠ slash) :
    ∃ front name back, EndsIn path front name back := by
  induction path using List.reverseRecOn with
  | nil => simp at hpath
  | append_singleton path ch ih =>
    by_cases hch : ch = slash
    · obtain ⟨front, name, back, h⟩ := ih (by simpa [hch] using hpath)
      refine ⟨front, name, back ++ [ch], by simp [h.eq], h.ne_nil, h.noSlash, h.front, ?_⟩
      simpa [hch, or_imp, forall_and] using h.back
    by_cases hmem : slash ∈ path
    · obtain ⟨word, dir, heq, hword⟩ := eq_append_cons_of_mem (mem_reverse.mpr hmem)
      obtain rfl : path = dir.reverse ++ [slash] ++ word.reverse := by
        simpa using congrArg reverse heq
      exact ⟨dir.reverse ++ [slash], word.reverse ++ [ch], [], by simp, by simp,
        by simp [hword, Ne.symm hch], .inr ⟨_, rfl⟩, by simp⟩
    · exact ⟨[], path ++ [ch], [], by simp, by simp, by simp [hmem, Ne.symm hch], .inl rfl, by simp⟩

/-- What stands before the name once the slashes at the front are skipped. -/
lemma dropWhile_front (hfront : front = [] ∨ ∃ dir, front = dir ++ [slash]) :
    front.dropWhile (· = slash) = [] ∧ parentOf front = [] ∨
      front.dropWhile (· = slash) = parentOf front ++ [slash] := by
  rcases hfront with rfl | ⟨dir, rfl⟩
  · exact .inl ⟨rfl, rfl⟩
  rw [parentOf, dropLast_concat, dropWhile_append]
  cases hdir : dir.dropWhile (· = slash) with
  | nil => exact .inl ⟨by simp, rfl⟩
  | cons ch rest => exact .inr (by simp)

lemma dropWhile_slashes (hback : ∀ ch ∈ back, ch = slash) : back.dropWhile (· = slash) = [] :=
  dropWhile_eq_nil_iff.mpr (by simpa using hback)

lemma segments_slashes (hback : ∀ ch ∈ back, ch = slash) : segments slash back = [] := by
  rw [← segments_dropWhile, dropWhile_slashes hback]
  rfl

lemma splitPath_slashes (hlen : path.length < wordLimit) (hpath : ∀ ch ∈ path, ch = slash)
    (parentSize nameSize : Nat) : splitPath parentSize nameSize path =
      if path = [] ∨ parentSize = 0 ∨ nameSize = 0 then some none else none := by
  rw [splitPath, dropWhile_slashes hpath, dropWhile_slashes (by simpa using hpath)]
  by_cases hempty : path = []
  · rw [hempty, if_pos (.inr (.inr rfl)), if_pos (.inl rfl)]
  have hpos := length_pos_iff.mpr hempty
  rw [length_nil, Nat.mod_eq_of_lt (by omega)]
  split_ifs <;> grind

variable (h : EndsIn path front name back)

include h

lemma EndsIn.trimmed : (path.reverse.dropWhile (· = slash)).reverse = front ++ name := by
  obtain ⟨ch, rest, hlast⟩ := exists_cons_of_ne_nil (reverse_ne_nil_iff.mpr h.ne_nil)
  have hch : ch ≠ slash := fun heq => h.noSlash (mem_reverse.mp (hlast ▸ heq ▸ mem_cons_self))
  rw [h.eq, reverse_append, dropWhile_append_of_pos (by simpa using h.back), reverse_append, hlast,
    cons_append, dropWhile_cons_of_neg (by simpa using hch), ← cons_append, ← hlast,
    ← reverse_append, reverse_reverse]

lemma EndsIn.skipped :
    path.dropWhile (· = slash) = front.dropWhile (· = slash) ++ name ++ back := by
  obtain ⟨ch, rest, rfl⟩ := exists_cons_of_ne_nil h.ne_nil
  have hch : ch ≠ slash := fun heq => h.noSlash (heq ▸ mem_cons_self)
  rw [h.eq, append_assoc, append_assoc, dropWhile_append]
  split
  next hnil =>
    rw [isEmpty_iff.mp hnil, cons_append, dropWhile_cons_of_neg (by simpa using hch)]
    rfl
  · rfl

/-- The name is what comes after the last slash. -/
lemma EndsIn.afterSlash {text : List UInt8} (htext : text = [] ∨ ∃ dir, text = dir ++ [slash]) :
    ((text ++ name).reverse.takeWhile (· ≠ slash)).reverse = name := by
  have hall : ∀ ch ∈ name.reverse, decide (ch ≠ slash) = true := fun ch hch =>
    decide_eq_true fun heq => h.noSlash (heq ▸ mem_reverse.mp hch)
  rw [reverse_append, takeWhile_append_of_pos hall]
  rcases htext with rfl | ⟨dir, rfl⟩ <;> simp

lemma EndsIn.splitPath_eq (hlen : path.length < wordLimit) (parentSize nameSize : Nat) :
    splitPath parentSize nameSize path =
      some (if (parentOf front).length < parentSize ∧ name.length < nameSize then
        some (parentOf front, name) else none) := by
  have htrim := congrArg length h.trimmed
  have hle := length_dropWhile_le (· = slash) front
  have hskip := dropWhile_front h.front
  rw [length_reverse, length_append] at htrim
  rw [splitPath, htrim, h.skipped]
  generalize front.dropWhile (· = slash) = skip at hle hskip ⊢
  have hlast : (front.length + name.length + wordLimit -
      (path.length - (skip ++ name ++ back).length)) % wordLimit = skip.length + name.length := by
    rw [h.eq] at hlen ⊢
    simp only [length_append] at hlen ⊢
    rw [show front.length + name.length + wordLimit - (front.length + name.length + back.length -
      (skip.length + name.length + back.length)) = skip.length + name.length + wordLimit by omega,
      Nat.add_mod_right, Nat.mod_eq_of_lt (by omega)]
  have htext : (skip ++ name ++ back).take (skip.length + name.length) = skip ++ name := by
    rw [← length_append, take_left]
  have hname := h.afterSlash (hskip.imp And.left fun heq => ⟨_, heq⟩)
  rw [hlast, htext, hname, if_neg h.ne_nil, length_append, length_append]
  have hpos := length_pos_iff.mpr h.ne_nil
  rcases hskip with ⟨rfl, hparent⟩ | rfl
  · rw [hparent, nil_append, if_pos h.noSlash]
    split_ifs <;> grind
  · have htake : (parentOf front ++ [slash]).length + name.length - (name.length + 1) =
        (parentOf front).length := by simp; omega
    have hmem : ¬slash ∉ parentOf front ++ ([slash] ++ name) := by simp
    rw [htake, append_assoc, take_left, if_neg hmem]
    split_ifs <;> grind

lemma EndsIn.segments_eq : segments slash path = segments slash (parentOf front) ++ [name] := by
  have hname : segments slash (name ++ back) = [name] := by
    rcases back with _ | ⟨ch, rest⟩
    · rw [append_nil, segments_of_notMem h.noSlash h.ne_nil]
    obtain ⟨rfl, hrest⟩ := forall_mem_cons.mp h.back
    rw [segments_append_sep, segments_of_notMem h.noSlash h.ne_nil, segments_slashes hrest]
    rfl
  rw [h.eq, parentOf, segments_dropWhile, append_assoc]
  rcases h.front with rfl | ⟨dir, rfl⟩
  · exact hname
  · rw [append_assoc, singleton_append, segments_append_sep, hname, dropLast_concat]

/-- The split of the other file system keeps slashes at the front. -/
lemma EndsIn.of_fat32 {parent last : List UInt8}
    (hsplit : Fat32.Geometry.splitParentChildPath path = some (parent, last)) :
    last = name ∧ parent.dropWhile (· = slash) = parentOf front := by
  have hlen : (front ++ name).length - (name.length + 1) = front.length - 1 := by
    rw [length_append]
    omega
  have hparent : (front ++ name).take (front.length - 1) = front.dropLast := by
    rw [take_append_of_le_length (by omega), dropLast_eq_take]
  unfold Fat32.Geometry.splitParentChildPath at hsplit
  rw [show Fat32.slash = slash from rfl, h.trimmed] at hsplit
  dsimp only at hsplit
  rw [h.afterSlash h.front, hlen, hparent] at hsplit
  split_ifs at hsplit with hnil hmem
  · cases hsplit
    exact ⟨rfl, rfl⟩
  · rcases h.front with rfl | ⟨dir, rfl⟩
    · cases hsplit
      exact ⟨rfl, rfl⟩
    · simp at hmem

/-- The path is split before its last name, or has none, or a part does not fit. -/
def SplitsRight (parentSize nameSize : Nat) (path : List UInt8) : Prop :=
  match splitPath parentSize nameSize path with
  | none => False
  | some none => segments slash path = [] ∨ ∃ front name back, EndsIn path front name back ∧
      (parentSize ≤ (parentOf front).length ∨ nameSize ≤ name.length)
  | some (some (parent, name)) => segments slash path = segments slash parent ++ [name] ∧
      (∃ front back, EndsIn path front name back ∧ parent = parentOf front) ∧
      parent.length < parentSize ∧ name.length < nameSize

omit h

/-- The split is right unless the path has slashes only. Where both file systems accept a path,
they find the same name and the same directory. -/
theorem splitPath_right_iff (parentSize nameSize : Nat) (path : List UInt8)
    (hlen : path.length + 1 < wordLimit) :
    (SplitsRight parentSize nameSize path ↔
      path = [] ∨ (∃ ch ∈ path, ch ≠ slash) ∨ parentSize = 0 ∨ nameSize = 0) ∧
    ∀ parent name parent' name', splitPath parentSize nameSize path = some (some (parent, name)) →
      Fat32.Geometry.splitParentChildPath path = some (parent', name') →
      name' = name ∧ parent'.dropWhile (· = slash) = parent := by
  have hlen := Nat.lt_of_succ_lt hlen
  by_cases hpath : ∃ ch ∈ path, ch ≠ slash
  · obtain ⟨front, name, back, h⟩ := exists_endsIn hpath
    have hsplit := h.splitPath_eq hlen parentSize nameSize
    refine ⟨iff_of_true ?_ (.inr (.inl hpath)), ?_⟩
    · rw [SplitsRight, hsplit]
      split_ifs with hfits
      · exact ⟨h.segments_eq, ⟨front, back, h, rfl⟩, hfits⟩
      · exact .inr ⟨front, name, back, h, by omega⟩
    · intro parent name' parent' last hsome hfat
      rw [hsplit, Option.some_inj] at hsome
      split_ifs at hsome
      cases hsome
      exact h.of_fat32 hfat
  · have hslashes : ∀ ch ∈ path, ch = slash := by simpa using hpath
    have hsplit := splitPath_slashes hlen hslashes parentSize nameSize
    constructor
    · rw [SplitsRight, hsplit]
      split_ifs with hfails
      · exact iff_of_true (.inl (segments_slashes hslashes)) (hfails.imp_right .inr)
      · exact iff_of_false id fun h => hfails (h.imp_right fun h => h.resolve_left hpath)
    · intro _ _ _ _ hsome
      rw [hsplit] at hsome
      split_ifs at hsome
      cases hsome

/-- A path with two separators in a row and one at its end. -/
theorem splitPath_right_file : SplitsRight 256 28 [47, 97, 47, 47, 98, 47] ∧
    splitPath 256 28 [47, 97, 47, 47, 98, 47] = some (some ([97, 47], [98])) :=
  ⟨(splitPath_right_iff 256 28 [47, 97, 47, 47, 98, 47] (by decide)).1.mpr
    (.inr (.inl ⟨97, by decide, by decide⟩)), by decide⟩

/-- The path `/` has no name, and is scanned over its end. -/
theorem splitPath_slash_not_right : splitPath 256 28 [47] = none ∧ ¬SplitsRight 256 28 [47] := by
  have hsplit : splitPath 256 28 [47] = none := by decide
  refine ⟨hsplit, fun h => ?_⟩
  rwa [SplitsRight, hsplit] at h

end NexOS.Nxfs
