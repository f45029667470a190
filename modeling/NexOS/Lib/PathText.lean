import Mathlib

/-! # Texts of separated segments

A path is a text whose segments stand between separators. Empty segments are
skipped when a text is read, so that repeated separators and separators at the
ends do not matter.
-/

namespace PathText

open List Nat

variable {α : Type*} [DecidableEq α] (sep : α) {path : List (List α)} {segment : List α}

/-- The segments of a text, after `current` was read of the first one. -/
def collect : List α → List α → List (List α)
  | current, [] => if current = [] then [] else [current]
  | current, c :: rest =>
    if c = sep then
      if current = [] then collect [] rest else current :: collect [] rest
    else collect (current ++ [c]) rest

/-- The parts between separators that are not empty. -/
def segments (text : List α) : List (List α) := collect sep [] text

/-- The segments with separators between them. -/
def join : List (List α) → List α
  | [] => []
  | [segment] => segment
  | segment :: next :: rest => segment ++ sep :: join (next :: rest)

variable {sep}

lemma collect_append_sep (current before after : List α) :
    collect sep current (before ++ sep :: after) =
      collect sep current before ++ collect sep [] after := by
  induction before generalizing current with
  | nil =>
    by_cases hcur : current = []
    · simp [collect, hcur]
    · simp [collect, hcur]
  | cons c before ih =>
    rw [cons_append, collect, collect]
    split
    · split
      · exact ih []
      · rw [ih [], cons_append]
    · exact ih _

/-- A separator cuts a text into two that are read on their own. -/
lemma segments_append_sep (before after : List α) :
    segments sep (before ++ sep :: after) = segments sep before ++ segments sep after :=
  collect_append_sep [] before after

lemma collect_of_notMem {current word : List α} (hword : sep ∉ word)
    (hne : current ++ word ≠ []) : collect sep current word = [current ++ word] := by
  induction word generalizing current with
  | nil =>
    rw [append_nil] at hne ⊢
    rw [collect, if_neg hne]
  | cons c word ih =>
    rw [mem_cons, not_or] at hword
    rw [collect, if_neg (Ne.symm hword.1), ih hword.2 (by simp), append_assoc]
    rfl

lemma segments_of_notMem {word : List α} (hword : sep ∉ word) (hne : word ≠ []) :
    segments sep word = [word] :=
  collect_of_notMem hword hne

lemma mem_collect {current text : List α} (hcur : sep ∉ current)
    (hmem : segment ∈ collect sep current text) : segment ≠ [] ∧ sep ∉ segment := by
  induction text generalizing current with
  | nil => by_cases hnil : current = [] <;> simp_all [collect]
  | cons c rest ih =>
    rw [collect] at hmem
    split_ifs at hmem with hc hnil
    · exact ih not_mem_nil hmem
    · rcases mem_cons.mp hmem with rfl | hmem
      · exact ⟨hnil, hcur⟩
      · exact ih not_mem_nil hmem
    · exact ih (by simp [hcur, Ne.symm hc]) hmem

lemma mem_segments {text : List α} (hmem : segment ∈ segments sep text) :
    segment ≠ [] ∧ sep ∉ segment :=
  mem_collect not_mem_nil hmem

/-- Written each behind a separator, the segments of a text are at most one longer. -/
lemma length_flatMap_collect (current text : List α) :
    ((collect sep current text).flatMap (sep :: ·)).length ≤ current.length + text.length + 1 := by
  induction text generalizing current with
  | nil =>
    rw [collect]
    split <;> simp
  | cons c rest ih =>
    rw [collect]
    split_ifs with hc hnil
    · exact (ih []).trans (by simp; omega)
    · have hrest := ih []
      simp only [flatMap_cons, length_append, length_cons, length_nil] at hrest ⊢
      omega
    · exact (ih _).trans (by simp; omega)

/-- Separators at the front do not matter. -/
lemma segments_dropWhile (text : List α) :
    segments sep (text.dropWhile fun c => decide (c = sep)) = segments sep text := by
  induction text with
  | nil => rfl
  | cons c rest ih =>
    by_cases hc : c = sep
    · rw [dropWhile_cons_of_pos (by simp [hc]), ih, hc]
      simp [segments, collect]
    · rw [dropWhile_cons_of_neg (by simp [hc])]

/-- A text that starts with a segment, and what follows the segment. -/
lemma segments_cons {c : α} (hc : c ≠ sep) (rest : List α) : segments sep (c :: rest) =
      ((c :: rest).takeWhile fun c => decide (c ≠ sep)) ::
        segments sep ((c :: rest).dropWhile fun c => decide (c ≠ sep)) := by
  have hword : sep ∉ (c :: rest).takeWhile fun c => decide (c ≠ sep) := fun hmem => by
    simpa using mem_takeWhile_imp hmem
  have hne : ((c :: rest).takeWhile fun c => decide (c ≠ sep)) ≠ [] := by
    rw [takeWhile_cons_of_pos (by simp [hc])]
    exact cons_ne_nil _ _
  have hsplit := @takeWhile_append_dropWhile _ (fun c => decide (c ≠ sep)) (c :: rest)
  cases hafter : (c :: rest).dropWhile fun c => decide (c ≠ sep) with
  | nil =>
    rw [hafter, append_nil] at hsplit
    rw [hsplit] at hword
    rw [hsplit, segments_of_notMem hword (cons_ne_nil _ _)]
    rfl
  | cons first after =>
    have hfirst : first = sep := by
      have hne : ((c :: rest).dropWhile fun c => decide (c ≠ sep)) ≠ [] := by
        rw [hafter]
        exact cons_ne_nil _ _
      have hnot := head_dropWhile_not (fun c => decide (c ≠ sep)) hne
      simp only [hafter, head_cons] at hnot
      simpa using hnot
    rw [hafter, hfirst] at hsplit
    conv_lhs => rw [← hsplit]
    rw [segments_append_sep, segments_of_notMem hword hne, hfirst]
    simp [segments, collect]

omit [DecidableEq α] in
@[simp] lemma join_cons_cons (segment next : List α) (rest : List (List α)) :
    join sep (segment :: next :: rest) = segment ++ sep :: join sep (next :: rest) := rfl

/-- The first segment of a joined text ends at the first separator. -/
lemma takeWhile_join (hseg : sep ∉ segment) (rest : List (List α)) :
    (join sep (segment :: rest)).takeWhile (fun c => decide (c ≠ sep)) = segment := by
  have hall : ∀ c ∈ segment, decide (c ≠ sep) = true := fun c hc =>
    decide_eq_true fun heq => hseg (heq ▸ hc)
  cases rest with
  | nil => exact takeWhile_eq_self_iff.mpr hall
  | cons next rest =>
    rw [join_cons_cons, takeWhile_append_of_pos hall, takeWhile_cons_of_neg (by simp), append_nil]

omit [DecidableEq α] in
lemma join_concat (hne : path ≠ []) (last : List α) :
    join sep (path ++ [last]) = join sep path ++ sep :: last := by
  induction path with
  | nil => exact absurd rfl hne
  | cons segment rest ih =>
    rcases rest with _ | ⟨next, rest⟩
    · rfl
    rw [cons_append, cons_append, join_cons_cons, join_cons_cons,
      ← cons_append, ih (cons_ne_nil _ _), append_assoc]
    rfl

omit [DecidableEq α] in
lemma length_join_cons (segment : List α) (rest : List (List α)) :
    segment.length ≤ (join sep (segment :: rest)).length := by
  cases rest with
  | nil => exact le_rfl
  | cons next rest => simp

omit [DecidableEq α] in
lemma join_cons_ne_nil (hne : segment ≠ []) (rest : List (List α)) :
    join sep (segment :: rest) ≠ [] := fun hnil => by
  have hle := @length_join_cons _ sep segment rest
  rw [hnil] at hle
  exact hne (length_eq_zero_iff.mp (le_zero.mp hle))

omit [DecidableEq α] in
lemma length_le_join (hmem : segment ∈ path) : segment.length ≤ (join sep path).length := by
  induction path with
  | nil => exact absurd hmem not_mem_nil
  | cons first rest ih =>
    rcases mem_cons.mp hmem with rfl | hrest
    · exact length_join_cons segment rest
    obtain ⟨next, others, rfl⟩ := exists_cons_of_ne_nil (ne_nil_of_mem hrest)
    calc segment.length
        _ ≤ (join sep (next :: others)).length := ih hrest
        _ ≤ (join sep (first :: next :: others)).length := by simp; omega

omit [DecidableEq α] in
/-- Leaving segments out at the front makes a text shorter. -/
lemma length_join_drop_lt (hpath : ∀ segment ∈ path, segment ≠ []) {i j : Nat} (hij : i < j)
    (hi : i < path.length) : (join sep (path.drop j)).length < (join sep (path.drop i)).length := by
  induction path generalizing i j with
  | nil => exact absurd hi (not_lt_zero _)
  | cons segment rest ih =>
    obtain ⟨j, rfl⟩ := exists_eq_succ_of_ne_zero (ne_of_gt (zero_lt_of_lt hij))
    have hrest : ∀ segment ∈ rest, segment ≠ [] := fun s hs => hpath s (mem_cons_of_mem _ hs)
    have hseg : 0 < segment.length := length_pos_iff.mpr (hpath _ mem_cons_self)
    rw [drop_succ_cons]
    cases i with
    | succ i =>
      exact ih hrest (lt_of_succ_lt_succ hij) (lt_of_succ_lt_succ hi)
    | zero =>
      rw [drop_zero]
      cases rest with
      | nil =>
        rw [drop_nil]
        exact hseg
      | cons next rest =>
        have htail : (join sep ((next :: rest).drop j)).length ≤
            (join sep (next :: rest)).length := by
          cases j with
          | zero => exact le_rfl
          | succ j => exact (ih hrest (succ_pos j) (succ_pos _)).le
        rw [join_cons_cons, length_append, length_cons]
        omega

omit [DecidableEq α] in
lemma join_drop_injective (hpath : ∀ segment ∈ path, segment ≠ []) {i j : Nat}
    (hi : i ≤ path.length) (hj : j ≤ path.length)
    (hjoin : join sep (path.drop i) = join sep (path.drop j)) : i = j := by
  rcases lt_trichotomy i j with hlt | heq | hgt
  · have hlen := @length_join_drop_lt _ sep _ hpath _ _ hlt (hlt.trans_le hj)
    rw [hjoin] at hlen
    exact absurd hlen (lt_irrefl _)
  · exact heq
  · have hlen := @length_join_drop_lt _ sep _ hpath _ _ hgt (hgt.trans_le hi)
    rw [hjoin] at hlen
    exact absurd hlen (lt_irrefl _)

/-- From node to node along the names. -/
def walk {Node Name : Type} (child : Node → Name → Option Node) : Node → List Name → Option Node
  | node, [] => some node
  | node, name :: rest => (child node name).bind fun next => walk child next rest

end PathText
