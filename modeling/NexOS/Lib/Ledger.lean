import Mathlib

/-! # Ledgers of owned items

Owners hold items, and items carry a mark. A ledger is sound when no item is
held twice and every held item is marked; a marked item that nobody holds is
stray. Owners gain unmarked items and drop all they hold. Both keep a ledger
sound, and only items that are marked without being handed over become stray.
-/

/-- What each owner holds, and what is marked as taken. -/
structure Ledger (Owner Item : Type) where
  held : Owner → List Item
  marked : Item → Bool

namespace Ledger

open List

variable {Owner Item : Type} {region : Item → Prop} {l l' l'' : Ledger Owner Item}

/-- No item is held twice, and every held item lies in the region and is marked. -/
structure Sound (region : Item → Prop) (l : Ledger Owner Item) : Prop where
  nodup : ∀ owner, (l.held owner).Nodup
  disjoint : ∀ ⦃a b⦄, a ≠ b → List.Disjoint (l.held a) (l.held b)
  inside : ∀ owner, ∀ item ∈ l.held owner, region item ∧ l.marked item = true

/-- Marked, but held by nobody. -/
def Stray (l : Ledger Owner Item) (item : Item) : Prop :=
  l.marked item = true ∧ ∀ owner, item ∉ l.held owner

/-- From a sound ledger to a sound one; in the region, exactly the items of
`lost` become stray. -/
structure Keeps (region : Item → Prop) (l l' : Ledger Owner Item) (lost : List Item) : Prop where
  sound : l'.Sound region
  stray : ∀ item, region item → (l'.Stray item ↔ l.Stray item ∨ item ∈ lost)
  outside : ∀ item, ¬region item → l'.marked item = l.marked item
  within : ∀ item ∈ lost, region item

lemma Keeps.refl (hsound : l.Sound region) : Keeps region l l [] where
  sound := hsound
  stray item _ := by simp
  outside _ _ := rfl
  within _ h := by cases h

lemma Keeps.trans {first second : List Item} (hfirst : Keeps region l l' first)
    (hsnd : Keeps region l' l'' second) : Keeps region l l'' (first ++ second) where
  sound := hsnd.sound
  stray item hitem := by
    rw [hsnd.stray item hitem, hfirst.stray item hitem, mem_append, or_assoc]
  outside item hitem := (hsnd.outside item hitem).trans (hfirst.outside item hitem)
  within item hitem := (mem_append.mp hitem).elim (hfirst.within item) (hsnd.within item)

/-- A ledger without stray items is left without any exactly if none is lost. -/
lemma Keeps.balanced_iff {lost : List Item} (hkeeps : Keeps region l l' lost)
    (hbalanced : ∀ item, region item → ¬l.Stray item) :
    (∀ item, region item → ¬l'.Stray item) ↔ lost = [] := by
  constructor
  · intro hafter
    refine eq_nil_iff_forall_not_mem.mpr fun item hitem => ?_
    have hregion := hkeeps.within item hitem
    exact hafter item hregion ((hkeeps.stray item hregion).mpr (.inr hitem))
  · rintro rfl item hitem hstray
    rcases (hkeeps.stray item hitem).mp hstray with hstray | hmem
    · exact hbalanced item hitem hstray
    · cases hmem

/-- An owner gains some unmarked items, which are marked; the items of `lost`
are marked too. -/
structure Gains (region : Item → Prop) (l l' : Ledger Owner Item) (owner : Owner)
    (gained lost : List Item) : Prop where
  nodup : gained.Nodup
  apart : gained.Disjoint lost
  fresh : ∀ item ∈ gained ++ lost, region item ∧ l.marked item = false
  held : (l'.held owner).Perm (l.held owner ++ gained)
  others : ∀ other, other ≠ owner → l'.held other = l.held other
  marked : ∀ item, l'.marked item = true ↔ l.marked item = true ∨ item ∈ gained ++ lost

lemma Sound.not_mem_of_unmarked (hsound : l.Sound region) {item : Item}
    (hitem : l.marked item = false) (owner : Owner) : item ∉ l.held owner := by
  intro hmem
  rw [(hsound.inside owner item hmem).2] at hitem
  cases hitem

section Gains

variable {owner : Owner} {gained lost : List Item} (hgains : Gains region l l' owner gained lost)

include hgains

lemma Gains.mem_held (other : Owner) (item : Item) :
    item ∈ l'.held other ↔ item ∈ l.held other ∨ (other = owner ∧ item ∈ gained) := by
  by_cases heq : other = owner
  · subst heq
    rw [hgains.held.mem_iff]
    simp
  · rw [hgains.others other heq]
    simp [heq]

lemma Gains.sound (hsound : l.Sound region) : l'.Sound region := by
  have hfresh : ∀ item ∈ gained, ∀ other, item ∉ l.held other := fun item hitem =>
    hsound.not_mem_of_unmarked (hgains.fresh item (mem_append_left lost hitem)).2
  refine ⟨?_, ?_, ?_⟩
  · intro other
    by_cases heq : other = owner
    · subst heq
      rw [hgains.held.nodup_iff]
      apply List.Nodup.append (hsound.nodup other) hgains.nodup
      intro item hheld hitem
      exact hfresh item hitem other hheld
    · rw [hgains.others other heq]
      exact hsound.nodup other
  · intro a b hne item ha hb
    rw [hgains.mem_held] at ha hb
    rcases ha with ha | ⟨rfl, ha⟩
    · rcases hb with hb | ⟨rfl, hb⟩
      · exact hsound.disjoint hne ha hb
      · exact hfresh item hb a ha
    · rcases hb with hb | ⟨rfl, hb⟩
      · exact hfresh item ha b hb
      · exact hne rfl
  · intro other item hmem
    rw [hgains.mem_held] at hmem
    rcases hmem with hmem | ⟨rfl, hmem⟩
    · obtain ⟨hregion, hmark⟩ := hsound.inside other item hmem
      exact ⟨hregion, (hgains.marked item).mpr (.inl hmark)⟩
    · have hin := mem_append_left lost hmem
      exact ⟨(hgains.fresh item hin).1, (hgains.marked item).mpr (.inr hin)⟩

/-- Gaining makes exactly the lost items stray. -/
lemma Gains.keeps (hsound : l.Sound region) : Keeps region l l' lost where
  sound := hgains.sound hsound
  stray item hitem := by
    have hfresh : item ∈ gained ++ lost → ∀ other, item ∉ l.held other := fun hin =>
      hsound.not_mem_of_unmarked (hgains.fresh item hin).2
    simp only [Stray, hgains.marked, hgains.mem_held, not_or, not_and]
    constructor
    · rintro ⟨hmark | hin, hnone⟩
      · exact .inl ⟨hmark, fun other => (hnone other).1⟩
      · rcases mem_append.mp hin with hin | hin
        · exact absurd hin ((hnone owner).2 rfl)
        · exact .inr hin
    · rintro (⟨hmark, hnone⟩ | hlost)
      · refine ⟨.inl hmark, fun other => ⟨hnone other, ?_⟩⟩
        rintro rfl hin
        rw [(hgains.fresh item (mem_append_left lost hin)).2] at hmark
        cases hmark
      · have hin := mem_append_right gained hlost
        exact ⟨.inr hin, fun other => ⟨hfresh hin other, fun _ hgain =>
          hgains.apart hgain hlost⟩⟩
  outside item hitem := by
    rw [Bool.eq_iff_iff, hgains.marked item]
    constructor
    · rintro (hmark | hin)
      · exact hmark
      · exact absurd (hgains.fresh item hin).1 hitem
    · exact .inl
  within item hitem := (hgains.fresh item (mem_append_right gained hitem)).1

end Gains

/-- An owner drops all it holds, which is unmarked; the items of `lost` are
marked. -/
structure Drops (region : Item → Prop) (l l' : Ledger Owner Item) (owner : Owner)
    (lost : List Item) : Prop where
  fresh : ∀ item ∈ lost, region item ∧ l.marked item = false
  held : l'.held owner = []
  others : ∀ other, other ≠ owner → l'.held other = l.held other
  marked : ∀ item, l'.marked item = true ↔
    (l.marked item = true ∧ item ∉ l.held owner) ∨ item ∈ lost

section Drops

variable {owner : Owner} {lost : List Item} (hdrops : Drops region l l' owner lost)

include hdrops

lemma Drops.mem_held (other : Owner) (item : Item) :
    item ∈ l'.held other ↔ item ∈ l.held other ∧ other ≠ owner := by
  by_cases heq : other = owner
  · subst heq
    simp [hdrops.held]
  · simp [hdrops.others other heq, heq]

lemma Drops.sound (hsound : l.Sound region) : l'.Sound region := by
  refine ⟨?_, ?_, ?_⟩
  · intro other
    by_cases heq : other = owner
    · subst heq
      rw [hdrops.held]
      exact nodup_nil
    · rw [hdrops.others other heq]
      exact hsound.nodup other
  · intro a b hne item ha hb
    rw [hdrops.mem_held] at ha hb
    exact hsound.disjoint hne ha.1 hb.1
  · intro other item hitem
    obtain ⟨hheld, hne⟩ := (hdrops.mem_held other item).mp hitem
    obtain ⟨hregion, hmark⟩ := hsound.inside other item hheld
    exact ⟨hregion, (hdrops.marked item).mpr (.inl ⟨hmark, hsound.disjoint hne hheld⟩)⟩

/-- Dropping makes exactly the lost items stray. -/
lemma Drops.keeps (hsound : l.Sound region) : Keeps region l l' lost where
  sound := hdrops.sound hsound
  stray item _ := by
    simp only [Stray, hdrops.marked, hdrops.mem_held, not_and, not_not]
    constructor
    · rintro ⟨⟨hmark, hnot⟩ | hlost, hnone⟩
      · refine .inl ⟨hmark, fun other hheld => ?_⟩
        exact hnot (hnone other hheld ▸ hheld)
      · exact .inr hlost
    · rintro (⟨hmark, hnone⟩ | hlost)
      · exact ⟨.inl ⟨hmark, hnone owner⟩, fun other hheld => absurd hheld (hnone other)⟩
      · have hfresh := hsound.not_mem_of_unmarked (hdrops.fresh item hlost).2
        exact ⟨.inr hlost, fun other hheld => absurd hheld (hfresh other)⟩
  outside item hitem := by
    rw [Bool.eq_iff_iff, hdrops.marked item]
    constructor
    · rintro (⟨hmark, -⟩ | hlost)
      · exact hmark
      · exact absurd (hdrops.fresh item hlost).1 hitem
    · intro hmark
      exact .inl ⟨hmark, fun hheld => hitem (hsound.inside owner item hheld).1⟩
  within item hitem := (hdrops.fresh item hitem).1

end Drops

end Ledger
