import NexOS.Lib.Fuelled

/-! # Glob patterns

One loop matches a name against a pattern. When two characters differ it goes back to the last
star and lets it match one character more. The stars before it are not tried again: what they
left to the last one was as long as it can be.
-/

namespace NexOS.Shell

open List Fuelled

/-- The indices of the loop are the suffixes that they start: `p` and `t`, and for the last star
the pattern after it and `retry`. -/
structure Cursor where
  pattern : List Char
  text : List Char
  star : Option (List Char × List Char)

/-- The last star takes one more character. -/
def retry : Option (List Char × List Char) → Bool ⊕ Cursor
  | some (pattern, text) => .inr ⟨pattern, text.drop 1, some (pattern, text.drop 1)⟩
  | none => .inl false

/-- A round of the loop, and what comes after it at the end of the text. -/
def globStep : Cursor → Bool ⊕ Cursor
  | ⟨pattern, [], _⟩ => .inl (pattern.dropWhile (· = '*')).isEmpty
  | ⟨[], _ :: _, star⟩ => retry star
  | ⟨p :: pattern, ch :: text, star⟩ =>
    if p = '*' then .inr ⟨pattern, ch :: text, some (pattern, ch :: text)⟩
    else if p = ch then .inr ⟨pattern, text, star⟩
    else retry star

/-- `ush_glob_match_star_local`. -/
def globMatchStar (pattern text : List Char) : Fuelled Bool :=
  loop globStep ⟨pattern, text, none⟩

/-- A star matches any part of the text, and every other character itself. -/
def Matches : List Char → List Char → Prop
  | [], text => text = []
  | p :: pattern, text =>
    if p = '*' then ∃ front back, text = front ++ back ∧ Matches pattern back
    else ∃ rest, text = p :: rest ∧ Matches pattern rest

variable {front pattern text : List Char}

lemma matches_star :
    Matches ('*' :: pattern) text ↔ ∃ back, back <:+ text ∧ Matches pattern back := by
  rw [Matches, if_pos rfl]
  constructor
  · rintro ⟨front, back, rfl, hback⟩
    exact ⟨back, suffix_append front back, hback⟩
  · rintro ⟨back, ⟨front, rfl⟩, hback⟩
    exact ⟨front, back, rfl, hback⟩

lemma matches_nil : Matches pattern [] ↔ (pattern.dropWhile (· = '*')).isEmpty = true := by
  induction pattern with
  | nil => simp [Matches]
  | cons p pattern ih =>
    by_cases hp : p = '*'
    · rw [hp, matches_star, dropWhile_cons_of_pos (by simp), ← ih]
      simp
    · simp [Matches, hp]

lemma matches_append (hfront : '*' ∉ front) :
    Matches (front ++ pattern) text ↔ ∃ rest, text = front ++ rest ∧ Matches pattern rest := by
  induction front generalizing text with
  | nil => simp
  | cons p front ih =>
    rw [mem_cons, not_or] at hfront
    simp only [cons_append, Matches, if_neg (Ne.symm hfront.1), ih hfront.2]
    constructor
    · rintro ⟨_, rfl, rest, rfl, hrest⟩
      exact ⟨rest, rfl, hrest⟩
    · rintro ⟨rest, rfl, hrest⟩
      exact ⟨_, rfl, rest, rfl, hrest⟩

/-- The result says whether the pattern matches the text. -/
def Decides (cursor : Cursor) (pattern text : List Char) : Prop :=
  ∃ found, (loop globStep cursor).Returns found ∧ (found = true ↔ Matches pattern text)

lemma Decides.of_step {cur next : Cursor} {pattern' text' : List Char}
    (h : Decides next pattern' text') (hstep : globStep cur = .inr next)
    (hiff : Matches pattern text ↔ Matches pattern' text') : Decides cur pattern text := by
  obtain ⟨found, hreturns, hfound⟩ := h
  exact ⟨found, (returns_loop_of_step hstep).mpr hreturns, hfound.trans hiff.symm⟩

lemma Decides.of_done {cur : Cursor} {found : Bool} (hstep : globStep cur = .inl found)
    (hiff : found = true ↔ Matches pattern text) : Decides cur pattern text :=
  ⟨found, returns_loop_of_done hstep, hiff⟩

lemma matches_star_drop (hnot : ¬Matches pattern text) :
    Matches ('*' :: pattern) text ↔ Matches ('*' :: pattern) (text.drop 1) := by
  rw [matches_star, matches_star]
  constructor
  · rintro ⟨back, hback, hmatches⟩
    cases text with
    | nil => exact ⟨back, hback, hmatches⟩
    | cons ch text =>
      rcases suffix_cons_iff.mp hback with rfl | hback
      · exact absurd hmatches hnot
      · exact ⟨back, hback, hmatches⟩
  · rintro ⟨back, hback, hmatches⟩
    exact ⟨back, hback.trans (drop_suffix 1 text), hmatches⟩

/-- Where the rest of the pattern matches no less of the text, the first place at which the
characters before it are found is as good as any. -/
lemma matches_star_front (hfront : '*' ∉ front)
    (hgrows : ∀ rest, rest <:+ text → Matches pattern rest → Matches pattern text) :
    Matches ('*' :: (front ++ pattern)) (front ++ text) ↔ Matches pattern text := by
  rw [matches_star]
  constructor
  · rintro ⟨back, hback, hmatches⟩
    obtain ⟨rest, rfl, hrest⟩ := (matches_append hfront).mp hmatches
    have hle := hback.length_le
    rw [length_append, length_append] at hle
    exact hgrows rest (suffix_of_suffix_length_le ((suffix_append front rest).trans hback)
      (suffix_append front text) (by omega)) hrest
  · exact fun h => ⟨_, suffix_rfl, (matches_append hfront).mpr ⟨text, rfl, h⟩⟩

/-- The loop is right where it stands behind a star, after it has found `front` there. -/
def DecidesBehind (front pattern text : List Char) : Prop :=
  Decides ⟨pattern, text, some (front ++ pattern, front ++ text)⟩ ('*' :: (front ++ pattern))
    (front ++ text)

lemma DecidesBehind.retry (hfront : '*' ∉ front) (hnot : ¬Matches pattern text)
    (hstep : globStep ⟨pattern, text, some (front ++ pattern, front ++ text)⟩ =
      Shell.retry (some (front ++ pattern, front ++ text)))
    (h : DecidesBehind [] (front ++ pattern) ((front ++ text).drop 1)) :
    DecidesBehind front pattern text := by
  refine h.of_step hstep (matches_star_drop fun hmatches => ?_)
  obtain ⟨rest, heq, hrest⟩ := (matches_append hfront).mp hmatches
  exact hnot (append_cancel_left heq ▸ hrest)

lemma decides_behind_star (front pattern text : List Char) (hfront : '*' ∉ front) :
    DecidesBehind front pattern text := by
  match pattern, text with
  | pattern, [] =>
    refine .of_done rfl (matches_nil.symm.trans (matches_star_front hfront ?_).symm)
    exact fun rest hrest h => eq_nil_of_suffix_nil hrest ▸ h
  | [], ch :: text =>
    exact .retry hfront (by simp [Matches]) rfl (decides_behind_star [] _ _ not_mem_nil)
  | p :: pattern, ch :: text =>
    by_cases hstar : p = '*'
    · -- What the earlier star left to this one is the longest text it could leave.
      subst hstar
      refine (decides_behind_star [] pattern (ch :: text) not_mem_nil).of_step rfl
        (matches_star_front hfront fun rest hrest h => ?_)
      obtain ⟨back, hback, hmatches⟩ := matches_star.mp h
      exact matches_star.mpr ⟨back, hback.trans hrest, hmatches⟩
    by_cases hch : p = ch
    · subst hch
      have hnext := decides_behind_star (front ++ [p]) pattern text
        (by simp [hfront, Ne.symm hstar])
      rw [DecidesBehind, append_assoc, append_assoc] at hnext
      exact hnext.of_step (by rw [globStep, if_neg hstar, if_pos rfl]; rfl) Iff.rfl
    · exact .retry hfront (by simp [Matches, hstar, Ne.symm hch])
        (by rw [globStep, if_neg hstar, if_neg hch]) (decides_behind_star [] _ _ not_mem_nil)
termination_by (2 * front.length + pattern.length + text.length, text.length)
decreasing_by all_goals (simp [Prod.lex_def]; omega)

lemma decides_before_star (pattern text : List Char) :
    Decides ⟨pattern, text, none⟩ pattern text := by
  induction text generalizing pattern with
  | nil => exact .of_done rfl matches_nil.symm
  | cons ch text ih =>
    cases pattern with
    | nil => exact .of_done rfl (by simp [Matches])
    | cons p pattern =>
      by_cases hstar : p = '*'
      · subst hstar
        exact (decides_behind_star [] pattern (ch :: text) not_mem_nil).of_step rfl Iff.rfl
      by_cases hch : p = ch
      · subst hch
        exact (ih pattern).of_step (by rw [globStep, if_neg hstar, if_pos rfl])
          (by simp [Matches, hstar])
      · refine .of_done (by rw [globStep, if_neg hstar, if_neg hch]; rfl) ?_
        simp [Matches, hstar, Ne.symm hch]

/-- The loop ends on every pattern and text, and says whether the text matches. -/
theorem globMatchStar_decides (pattern text : List Char) :
    ∃ found, (globMatchStar pattern text).Returns found ∧
      (found = true ↔ Matches pattern text) :=
  decides_before_star pattern text

end NexOS.Shell
