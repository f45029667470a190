import Mathlib

/-! # Lists of separate intervals

Sorted lists of intervals with a gap between each and the next. An interval that meets
none of them is inserted in its place and joined with the neighbours that it touches.
-/

namespace NexOS

open List

/-- The points from `start` up to, but not with, `stop`. -/
structure Interval where
  start : Nat
  stop : Nat
  deriving DecidableEq

namespace Interval

/-- The position is within the interval. -/
def Has (i : Interval) (x : Nat) : Prop := i.start ≤ x ∧ x < i.stop

/-- No position is within both. -/
def Apart (i j : Interval) : Prop := i.stop ≤ j.start ∨ j.stop ≤ i.start

variable {j : Interval} {list : List Interval} {x : Nat}

lemma Apart.symm {i : Interval} (hapart : i.Apart j) : j.Apart i := Or.symm hapart

lemma Apart.not_has {i : Interval} (hapart : i.Apart j) (hx : i.Has x) : ¬j.Has x := by
  rintro ⟨hstart, hstop⟩
  obtain ⟨hle, hlt⟩ := hx
  rcases hapart with h | h
  · omega
  · omega

/-- From the start of one to the end of the other. -/
def join (i j : Interval) : Interval := ⟨i.start, j.stop⟩

/-- Each ends before the next begins. -/
def Gapped (list : List Interval) : Prop := list.Pairwise fun i j => i.stop < j.start

/-- An interval is joined with one that begins where it ends. -/
def joinNext (i : Interval) : List Interval → List Interval
  | [] => [i]
  | j :: rest => if i.stop = j.start then i.join j :: rest else i :: j :: rest

/-- An interval is put between others and joined with its neighbours. -/
def insertBetween (before : List Interval) (i : Interval) (after : List Interval) : List Interval :=
  match before.getLast? with
  | none => i.joinNext after
  | some last =>
    if last.stop = i.start then before.dropLast ++ (last.join i).joinNext after
    else before ++ i.joinNext after

/-- An interval is put into an ordered list. -/
def insert (list : List Interval) (i : Interval) : List Interval :=
  insertBetween (list.takeWhile fun j => j.start < i.start) i
    (list.dropWhile fun j => j.start < i.start)

variable {before after : List Interval} {i : Interval}

lemma joinNext_cons (i j : Interval) (rest : List Interval) :
    i.joinNext (j :: rest) = if i.stop = j.start then i.join j :: rest else i :: j :: rest := rfl

/-! ## What is preserved -/

/-- What holds of all intervals and of joined ones holds after an insertion. -/
lemma forall_joinNext {P : Interval → Prop} (hfirst : P i) (hrest : ∀ j ∈ after, P j)
    (hjoin : ∀ j ∈ after, i.stop = j.start → P (i.join j)) : ∀ j ∈ i.joinNext after, P j := by
  cases after with
  | nil =>
    intro j hj
    rwa [mem_singleton.mp hj]
  | cons first rest =>
    rw [joinNext_cons]
    split
    next htouch =>
      intro j hj
      rcases mem_cons.mp hj with rfl | hj
      · exact hjoin first mem_cons_self htouch
      · exact hrest j (mem_cons_of_mem _ hj)
    · intro j hj
      rcases mem_cons.mp hj with rfl | hj
      · exact hfirst
      · exact hrest j hj

lemma insertBetween_concat (before : List Interval) (last i : Interval) (after : List Interval) :
    insertBetween (before ++ [last]) i after =
      if last.stop = i.start then before ++ (last.join i).joinNext after
      else before ++ [last] ++ i.joinNext after := by
  unfold insertBetween
  rw [getLast?_concat, dropLast_concat]

/-! ## Points -/

/-- Some interval of the list has the position. -/
def Covered (list : List Interval) (x : Nat) : Prop := ∃ j ∈ list, j.Has x

lemma covered_cons : Covered (i :: list) x ↔ i.Has x ∨ Covered list x := by
  simp [Covered]

lemma covered_singleton : Covered [i] x ↔ i.Has x := by
  simp [Covered]

lemma not_covered_singleton : ¬Covered [i] x ↔ x < i.start ∨ i.stop ≤ x := by
  rw [covered_singleton, Has]
  omega

lemma covered_append {first second : List Interval} :
    Covered (first ++ second) x ↔ Covered first x ∨ Covered second x := by
  simp [Covered, or_and_right, exists_or]

lemma has_join (hi : i.start ≤ i.stop) (hj : j.start ≤ j.stop) (htouch : i.stop = j.start)
    (x : Nat) : (i.join j).Has x ↔ i.Has x ∨ j.Has x := by
  unfold Has join
  dsimp only
  omega

lemma covered_joinNext (hi : i.start ≤ i.stop) (hafter : ∀ j ∈ after, j.start ≤ j.stop) (x : Nat) :
    Covered (i.joinNext after) x ↔ Covered (i :: after) x := by
  rcases after with _ | ⟨first, rest⟩
  · rfl
  rw [joinNext_cons]
  split
  next htouch =>
    rw [covered_cons, covered_cons, covered_cons,
      has_join hi (hafter first mem_cons_self) htouch, or_assoc]
  · rfl

/-- An insertion adds the points of the interval. -/
lemma covered_insertBetween (hall : ∀ j ∈ before ++ i :: after, j.start ≤ j.stop) (x : Nat) :
    Covered (insertBetween before i after) x ↔ Covered (before ++ i :: after) x := by
  have hi := hall i (by simp)
  have hafter : ∀ j ∈ after, j.start ≤ j.stop := fun j hj => hall j (by simp [hj])
  rcases eq_nil_or_concat before with rfl | ⟨init, last, rfl⟩
  · exact covered_joinNext hi hafter x
  rw [concat_eq_append] at hall ⊢
  have hlast := hall last (by simp)
  rw [insertBetween_concat]
  split
  next htouch =>
    have hjoin : (last.join i).start ≤ (last.join i).stop := by
      unfold join
      dsimp only
      omega
    rw [covered_append, covered_joinNext hjoin hafter, covered_cons,
      has_join hlast hi htouch, covered_append, covered_append, covered_cons, covered_cons]
    simp only [Covered, not_mem_nil, false_and, exists_false, or_false, or_assoc]
  · rw [covered_append, covered_joinNext hi hafter, ← covered_append]

/-! ## Gaps -/

lemma gapped_joinNext (hgap : Gapped after) (hbefore : ∀ j ∈ after, i.stop ≤ j.start)
    (hlen : ∀ j ∈ after, j.start < j.stop) : Gapped (i.joinNext after) := by
  rcases after with _ | ⟨first, rest⟩
  · exact pairwise_singleton _ _
  obtain ⟨hfirst, hrest⟩ := pairwise_cons.mp hgap
  have hlong := hlen first mem_cons_self
  have hle := hbefore first mem_cons_self
  rw [joinNext_cons]
  split
  · exact pairwise_cons.mpr ⟨hfirst, hrest⟩
  next htouch =>
    refine pairwise_cons.mpr ⟨fun j hj => ?_, hgap⟩
    rcases mem_cons.mp hj with rfl | hj
    · omega
    · have hlater := hfirst j hj
      omega

/-- The first interval after an insertion begins where the inserted one does. -/
lemma start_le_of_mem_joinNext (hbefore : ∀ j ∈ after, i.stop ≤ j.start)
    (hi : i.start ≤ i.stop) : ∀ j ∈ i.joinNext after, i.start ≤ j.start := by
  refine forall_joinNext le_rfl (fun j hj => hi.trans (hbefore j hj)) fun j _ _ => ?_
  exact Nat.le_refl i.start

/-- A list with gaps has gaps again after an insertion. -/
lemma gapped_insertBetween (hgap : Gapped (before ++ after))
    (hbefore : ∀ j ∈ before, j.stop ≤ i.start) (hafter : ∀ j ∈ after, i.stop ≤ j.start)
    (hlong : ∀ j ∈ before ++ i :: after, j.start < j.stop) :
    Gapped (insertBetween before i after) := by
  obtain ⟨hfront, hback, hcross⟩ := pairwise_append.mp hgap
  have hi := hlong i (by simp)
  have hlongAfter : ∀ j ∈ after, j.start < j.stop := fun j hj => hlong j (by simp [hj])
  rcases eq_nil_or_concat before with rfl | ⟨init, last, rfl⟩
  · exact gapped_joinNext hback hafter hlongAfter
  rw [concat_eq_append] at hfront hcross hbefore hlong ⊢
  obtain ⟨hinit, -, hinitLast⟩ := pairwise_append.mp hfront
  have hlast := hlong last (by simp)
  have hlastLe := hbefore last (by simp)
  have hshort : ∀ j ∈ init, j.stop < last.start := fun j hj =>
    hinitLast j hj last (mem_singleton_self _)
  rw [insertBetween_concat]
  split
  next htouch =>
    refine pairwise_append.mpr ⟨hinit, gapped_joinNext hback hafter hlongAfter, ?_⟩
    intro a ha b hb
    have hstart : last.start ≤ b.start :=
      @start_le_of_mem_joinNext after (last.join i) hafter (show last.start ≤ i.stop by omega) b hb
    exact (hshort a ha).trans_le hstart
  next htouch =>
    refine pairwise_append.mpr ⟨hfront, gapped_joinNext hback hafter hlongAfter, ?_⟩
    intro a ha b hb
    have hstart := start_le_of_mem_joinNext hafter hi.le b hb
    rcases mem_append.mp ha with ha | ha
    · have hearlier := hshort a ha
      omega
    · rw [mem_singleton.mp ha]
      omega

/-- None ends behind the beginning of the next. -/
def Ordered (list : List Interval) : Prop := list.Pairwise fun i j => i.stop ≤ j.start

lemma Gapped.ordered (hgap : Gapped list) : Ordered list := hgap.imp fun h => Nat.le_of_lt h

/-- Two intervals of a list with gaps are the same or have room between them. -/
lemma Gapped.eq_or_lt (hgap : Gapped list) (hi : i ∈ list) (hj : j ∈ list) :
    i = j ∨ i.stop < j.start ∨ j.stop < i.start := by
  have hsymm : Std.Symm fun i j : Interval => i = j ∨ i.stop < j.start ∨ j.stop < i.start :=
    ⟨fun _ _ h => h.imp Eq.symm Or.symm⟩
  have hpair : list.Pairwise fun i j => i = j ∨ i.stop < j.start ∨ j.stop < i.start :=
    hgap.imp fun h => .inr (.inl h)
  exact hpair.forall_of_forall (fun _ _ => .inl rfl) hi hj

/-- What is not before an interval in a sorted list is behind its beginning. -/
lemma start_le_of_mem_dropWhile (hgap : Gapped list) (hlong : ∀ j ∈ list, j.start < j.stop) :
    ∀ j ∈ list.dropWhile (fun j => j.start < i.start), i.start ≤ j.start := by
  induction list with
  | nil => exact fun j hj => absurd hj not_mem_nil
  | cons first rest ih =>
    obtain ⟨hfirst, hrest⟩ := pairwise_cons.mp hgap
    by_cases hbefore : first.start < i.start
    · rw [dropWhile_cons_of_pos (by simpa using hbefore)]
      exact ih hrest fun j hj => hlong j (mem_cons_of_mem _ hj)
    rw [dropWhile_cons_of_neg (by simpa using hbefore)]
    intro j hj
    rcases mem_cons.mp hj with rfl | hj
    · omega
    · have hlater := hfirst j hj
      have hfirstLong := hlong first mem_cons_self
      omega

section Insert

lemma stop_le_of_mem_takeWhile (hapart : ∀ j ∈ list, j.Apart i) (hlong : i.start < i.stop) :
    ∀ j ∈ list.takeWhile (fun j => j.start < i.start), j.stop ≤ i.start := by
  intro j hj
  have hstart : j.start < i.start := by simpa using mem_takeWhile_imp hj
  rcases hapart j (takeWhile_sublist _ |>.subset hj) with h | h
  · exact h
  · omega

lemma stop_le_of_mem_dropWhile (hgap : Gapped list) (hapart : ∀ j ∈ list, j.Apart i)
    (hlong : ∀ j ∈ list, j.start < j.stop) :
    ∀ j ∈ list.dropWhile (fun j => j.start < i.start), i.stop ≤ j.start := by
  intro j hj
  have hmem := (dropWhile_sublist _).subset hj
  have hstart := start_le_of_mem_dropWhile hgap hlong j hj
  have hjlong := hlong j hmem
  rcases hapart j hmem with h | h
  · omega
  · exact h

/-- An interval between those before and those after it in a sorted list. -/
lemma ordered_between (hgap : Gapped list) (hapart : ∀ j ∈ list, j.Apart i)
    (hlong : ∀ j ∈ i :: list, j.start < j.stop) :
    Ordered (list.takeWhile (fun j => j.start < i.start) ++
      i :: list.dropWhile fun j => j.start < i.start) := by
  have hi := hlong i mem_cons_self
  have hlist : ∀ j ∈ list, j.start < j.stop := fun j hj => hlong j (mem_cons_of_mem _ hj)
  have hbefore := stop_le_of_mem_takeWhile hapart hi
  have hafter := stop_le_of_mem_dropWhile hgap hapart hlist
  refine pairwise_append.mpr ⟨hgap.ordered.sublist (takeWhile_sublist _),
    pairwise_cons.mpr ⟨hafter, hgap.ordered.sublist (dropWhile_sublist _)⟩, ?_⟩
  intro a ha b hb
  rcases mem_cons.mp hb with rfl | hb
  · exact hbefore a ha
  · exact ((hbefore a ha).trans hi.le).trans (hafter b hb)

lemma mem_between : (j ∈ list.takeWhile (fun j => j.start < i.start) ++
    i :: list.dropWhile fun j => j.start < i.start) ↔ j = i ∨ j ∈ list := by
  have hlist : j ∈ list ↔ j ∈ list.takeWhile (fun j => j.start < i.start) ∨
      j ∈ list.dropWhile fun j => j.start < i.start := by
    rw [← mem_append, takeWhile_append_dropWhile]
  rw [mem_append, mem_cons, hlist, or_left_comm]

lemma gapped_insert (hgap : Gapped list) (hapart : ∀ j ∈ list, j.Apart i)
    (hlong : ∀ j ∈ i :: list, j.start < j.stop) : Gapped (insert list i) := by
  have hlist : ∀ j ∈ list, j.start < j.stop := fun j hj => hlong j (mem_cons_of_mem _ hj)
  apply gapped_insertBetween
  · rwa [takeWhile_append_dropWhile]
  · exact stop_le_of_mem_takeWhile hapart (hlong i mem_cons_self)
  · exact stop_le_of_mem_dropWhile hgap hapart hlist
  · exact fun j hj => hlong j (mem_cons.mpr (mem_between.mp hj))

lemma covered_insert (hlong : ∀ j ∈ i :: list, j.start < j.stop) (x : Nat) :
    Covered (insert list i) x ↔ i.Has x ∨ Covered list x := by
  have hall : ∀ j, j ∈ list.takeWhile (fun j => j.start < i.start) ++
      i :: list.dropWhile (fun j => j.start < i.start) → j.start ≤ j.stop := fun j hj =>
    (hlong j (mem_cons.mpr (mem_between.mp hj))).le
  rw [← covered_cons]
  refine (covered_insertBetween hall x).trans ?_
  simp only [Covered, mem_between, mem_cons]

end Insert

/-- There is no room for more intervals than points. -/
lemma length_le_of_gapped {first limit : Nat} (hgap : Gapped list)
    (hlong : ∀ j ∈ list, j.start < j.stop) (hfirst : ∀ j ∈ list, first ≤ j.start)
    (hlimit : ∀ j ∈ list, j.stop ≤ limit) (hle : first ≤ limit) : first + list.length ≤ limit := by
  induction list generalizing first with
  | nil => exact hle
  | cons j rest ih =>
    obtain ⟨hj, hrest⟩ := pairwise_cons.mp hgap
    have hjlong := hlong j mem_cons_self
    have hjfirst := hfirst j mem_cons_self
    have hjlimit := hlimit j mem_cons_self
    have hlen : j.stop + rest.length ≤ limit :=
      ih hrest (fun k hk => hlong k (mem_cons_of_mem _ hk)) (fun k hk => (hj k hk).le)
        (fun k hk => hlimit k (mem_cons_of_mem _ hk)) hjlimit
    rw [length_cons]
    omega

/-- Intervals without a common point. -/
lemma apart_of_not_has (hi : i.start < i.stop) (hj : j.start < j.stop)
    (hnone : ∀ x, i.Has x → ¬j.Has x) : i.Apart j := by
  by_contra hmeet
  unfold Apart at hmeet
  have hleft : ¬j.Has (max i.start j.start) := hnone _ ⟨le_max_left _ _, by omega⟩
  exact hleft ⟨le_max_right _ _, by omega⟩

end Interval

end NexOS
