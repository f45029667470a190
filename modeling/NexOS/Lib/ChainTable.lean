import Mathlib

/-! # Tables of chains

A table links cells to chains: a cell is free, bad, the last of its chain, or followed
by another cell. Holders hold chains by their first cells. The chains partition the table
if they do not meet and every cell that is neither free nor bad is on one of them. A chain that
grows by a free cell, a free cell that becomes a chain of its own, and a chain that is
freed together with its holder all keep the partition.
-/

/-- What a table says of a cell. -/
inductive Link (Cell : Type) where
  | free
  | bad
  | last
  | next (cell : Cell)
  deriving DecidableEq

namespace ChainTable

open List

variable {Cell Holder : Type} {table table' : Cell → Link Cell}

/-! ## Chains -/

/-- The cells of a chain that ends, from its first cell on. -/
inductive Chain (table : Cell → Link Cell) : Cell → List Cell → Prop
  | last {cell : Cell} (hlast : table cell = .last) : Chain table cell [cell]
  | next {cell after : Cell} {rest : List Cell} (hnext : table cell = .next after)
      (hrest : Chain table after rest) : Chain table cell (cell :: rest)

variable {first second cell : Cell} {cells others : List Cell} (hchain : Chain table first cells)

include hchain

lemma Chain.mem_first : first ∈ cells := by
  cases hchain <;> exact mem_cons_self

lemma Chain.exists_cons : ∃ rest, cells = first :: rest := by
  cases hchain with
  | last _ => exact ⟨[], rfl⟩
  | next _ _ => exact ⟨_, rfl⟩

lemma Chain.unique (hother : Chain table first others) : cells = others := by
  induction hchain generalizing others with
  | last hlast =>
    cases hother with
    | last _ => rfl
    | next hnext _ => exact absurd (hlast.symm.trans hnext) nofun
  | next hnext _ ih =>
    cases hother with
    | last hlast => exact absurd (hlast.symm.trans hnext) nofun
    | next hnext' hrest =>
      obtain rfl := Link.next.inj (hnext.symm.trans hnext')
      rw [ih hrest]

lemma Chain.not_free (hcell : cell ∈ cells) : table cell ≠ .free := by
  induction hchain with
  | last hlast =>
    rw [mem_singleton.mp hcell, hlast]
    exact nofun
  | next hnext _ ih =>
    rcases mem_cons.mp hcell with rfl | hcell
    · rw [hnext]
      exact nofun
    · exact ih hcell

/-- From every cell of a chain on there is a chain. -/
lemma Chain.exists_suffix (hcell : cell ∈ cells) :
    ∃ front rest, cells = front ++ rest ∧ Chain table cell rest := by
  induction hchain with
  | last hlast =>
    obtain rfl := mem_singleton.mp hcell
    exact ⟨[], _, rfl, .last hlast⟩
  | next hnext hrest ih =>
    rcases mem_cons.mp hcell with rfl | hcell
    · exact ⟨[], _, rfl, .next hnext hrest⟩
    · obtain ⟨front, rest, rfl, hsuffix⟩ := ih hcell
      exact ⟨_ :: front, rest, rfl, hsuffix⟩

/-- A chain that ends does not come back to a cell. -/
lemma Chain.nodup : cells.Nodup := by
  induction hchain with
  | last _ => exact nodup_singleton _
  | next hnext hrest ih =>
    refine nodup_cons.mpr ⟨fun hcell => ?_, ih⟩
    obtain ⟨front, rest, rfl, hsuffix⟩ := hrest.exists_suffix hcell
    have hlen := congrArg List.length (hsuffix.unique (.next hnext hrest))
    rw [length_cons, length_append] at hlen
    omega

lemma Chain.congr
    (hsame : ∀ cell ∈ cells, table' cell = table cell) : Chain table' first cells := by
  induction hchain with
  | last hlast => exact .last ((hsame _ mem_cons_self).trans hlast)
  | next hnext _ ih =>
    exact .next ((hsame _ mem_cons_self).trans hnext)
      (ih fun cell hcell => hsame cell (mem_cons_of_mem _ hcell))

/-- A chain grows at its last cell. -/
lemma Chain.extend {tail new : Cell} (htail : tail ∈ cells)
    (hlast : table tail = .last) (hsame : ∀ cell ∈ cells, cell ≠ tail → table' cell = table cell)
    (hlink : table' tail = .next new) (hnew : table' new = .last) :
    Chain table' first (cells ++ [new]) := by
  induction hchain with
  | last _ =>
    obtain rfl := mem_singleton.mp htail
    exact .next hlink (.last hnew)
  | @next cell after rest hnext _ ih =>
    have hne : tail ≠ cell := fun heq => nomatch (heq ▸ hlast).symm.trans hnext
    have hrest : tail ∈ rest := (mem_cons.mp htail).resolve_left hne
    exact .next ((hsame cell mem_cons_self hne.symm).trans hnext)
      (ih hrest fun other hother => hsame other (mem_cons_of_mem _ hother))

omit hchain

/-! ## Partitions -/

/-- Holders hold chains that do not meet and that all cells which are in use are on. -/
structure Partitioned (table : Cell → Link Cell) (holds : Holder → Cell → Prop) : Prop where
  chained : ∀ {holder first}, holds holder first → ∃ cells, Chain table first cells
  apart : ∀ {holder other first second cells others}, holds holder first → holds other second →
    (holder, first) ≠ (other, second) → Chain table first cells → Chain table second others →
    cells.Disjoint others
  covered : ∀ {cell}, table cell ≠ .free → table cell ≠ .bad →
    ∃ holder first cells, holds holder first ∧ Chain table first cells ∧ cell ∈ cells

variable {holds holds' : Holder → Cell → Prop} {owner : Holder} (hpart : Partitioned table holds)

include hpart

lemma Partitioned.congr (hholds : ∀ holder first, holds' holder first ↔ holds holder first) :
    Partitioned table holds' := by
  obtain rfl : holds' = holds := funext₂ fun holder first => propext (hholds holder first)
  exact hpart

/-- The chain of a holder grows by a free cell. -/
lemma Partitioned.extend {tail new : Cell}
    (howner : holds owner first) (hchain : Chain table first cells) (htail : tail ∈ cells)
    (hlast : table tail = .last) (hfree : table new = .free)
    (hsame : ∀ cell, cell ≠ tail → cell ≠ new → table' cell = table cell)
    (hlink : table' tail = .next new) (hnew : table' new = .last) : Partitioned table' holds := by
  have hnotNew : ∀ {first cells}, Chain table first cells → new ∉ cells :=
    fun hother hmem => hother.not_free hmem hfree
  have hgrown : Chain table' first (cells ++ [new]) := by
    refine hchain.extend htail hlast (fun cell hcell hne => hsame cell hne ?_) hlink hnew
    rintro rfl
    exact hnotNew hchain hcell
  -- the other chains do not have the last cell of this one
  have hother : ∀ {holder second others}, holds holder second → (holder, second) ≠ (owner, first) →
      Chain table second others → Chain table' second others := by
    intro holder second others hholds hne hothers
    refine hothers.congr fun cell hcell => hsame cell ?_ ?_
    · rintro rfl
      exact hpart.apart hholds howner hne hothers hchain hcell htail
    · rintro rfl
      exact hnotNew hothers hcell
  have hold : ∀ {holder second others}, holds holder second → Chain table' second others →
      ∃ old, Chain table second old ∧ (others = old ∨ (holder, second) = (owner, first) ∧
        others = old ++ [new]) := by
    intro holder second others hholds hothers
    obtain ⟨old, hchained⟩ := hpart.chained hholds
    refine ⟨old, hchained, ?_⟩
    by_cases heq : (holder, second) = (owner, first)
    · obtain ⟨rfl, rfl⟩ := Prod.mk.inj heq
      exact .inr ⟨rfl, by rw [hothers.unique hgrown, hchained.unique hchain]⟩
    · exact .inl (hothers.unique (hother hholds heq hchained))
  refine ⟨fun {holder second} hholds => ?_, ?_, ?_⟩
  · by_cases heq : (holder, second) = (owner, first)
    · obtain ⟨rfl, rfl⟩ := Prod.mk.inj heq
      exact ⟨_, hgrown⟩
    · obtain ⟨others, hothers⟩ := hpart.chained hholds
      exact ⟨others, hother hholds heq hothers⟩
  · intro holder other first' second cells' others hfirst hsnd hne hcells hothers
    obtain ⟨oldCells, hchainCells, hcases⟩ := hold hfirst hcells
    obtain ⟨oldOthers, hchainOthers, hcases'⟩ := hold hsnd hothers
    have hdisj := hpart.apart hfirst hsnd hne hchainCells hchainOthers
    rcases hcases with rfl | ⟨heq, rfl⟩
    · rcases hcases' with rfl | ⟨heq', rfl⟩
      · exact hdisj
      · exact disjoint_append_right.mpr ⟨hdisj, by simpa using hnotNew hchainCells⟩
    · rcases hcases' with rfl | ⟨heq', rfl⟩
      · exact disjoint_append_left.mpr ⟨hdisj, by simpa using hnotNew hchainOthers⟩
      · exact absurd (heq.trans heq'.symm) hne
  · intro cell hcell hgood
    by_cases heq : cell = new
    · exact ⟨owner, first, _, howner, hgrown, by simp [heq]⟩
    have hused : table cell ≠ .free ∧ table cell ≠ .bad := by
      by_cases htailEq : cell = tail
      · rw [htailEq, hlast]
        exact ⟨nofun, nofun⟩
      · rw [← hsame cell htailEq heq]
        exact ⟨hcell, hgood⟩
    obtain ⟨holder, second, others, hholds, hothers, hmem⟩ := hpart.covered hused.1 hused.2
    by_cases hpair : (holder, second) = (owner, first)
    · obtain ⟨rfl, rfl⟩ := Prod.mk.inj hpair
      rw [hothers.unique hchain] at hmem
      exact ⟨holder, second, _, hholds, hgrown, mem_append_left _ hmem⟩
    · exact ⟨holder, second, others, hholds, hother hholds hpair hothers, hmem⟩

/-- A free cell becomes the chain of a new holder. -/
lemma Partitioned.insert {new : Cell} (hfree : table new = .free)
    (hsame : ∀ cell, cell ≠ new → table' cell = table cell) (hnew : table' new = .last)
    (hholds : ∀ holder first, holds' holder first ↔
      holds holder first ∨ holder = owner ∧ first = new) : Partitioned table' holds' := by
  have hnotNew : ∀ {first cells}, Chain table first cells → new ∉ cells :=
    fun hother hmem => hother.not_free hmem hfree
  have hkept : ∀ {first cells}, Chain table first cells → Chain table' first cells := by
    intro first cells hchain
    refine hchain.congr fun cell hcell => hsame cell ?_
    rintro rfl
    exact hnotNew hchain hcell
  have hold : ∀ {holder first cells}, holds holder first → Chain table' first cells →
      Chain table first cells := by
    intro holder first cells hholder hchain
    obtain ⟨old, hchained⟩ := hpart.chained hholder
    rwa [hchain.unique (hkept hchained)]
  have hsingle : ∀ {cells}, Chain table' new cells → cells = [new] := fun hchain =>
    hchain.unique (.last hnew)
  refine ⟨?_, ?_, ?_⟩
  · intro holder first hholder
    rcases (hholds holder first).mp hholder with hheld | ⟨-, rfl⟩
    · obtain ⟨cells, hchain⟩ := hpart.chained hheld
      exact ⟨cells, hkept hchain⟩
    · exact ⟨_, .last hnew⟩
  · intro holder other first second cells others hfirst hsnd hne hcells hothers
    rcases (hholds holder first).mp hfirst with hheld | ⟨rfl, rfl⟩
    · rcases (hholds other second).mp hsnd with hheld' | ⟨rfl, rfl⟩
      · exact hpart.apart hheld hheld' hne (hold hheld hcells) (hold hheld' hothers)
      · rw [hsingle hothers]
        simpa using hnotNew (hold hheld hcells)
    · rcases (hholds other second).mp hsnd with hheld' | ⟨rfl, rfl⟩
      · rw [hsingle hcells]
        simpa using hnotNew (hold hheld' hothers)
      · exact absurd rfl hne
  · intro cell hcell hgood
    by_cases heq : cell = new
    · subst heq
      exact ⟨owner, cell, _, (hholds owner cell).mpr (.inr ⟨rfl, rfl⟩), .last hnew, mem_cons_self⟩
    · rw [hsame cell heq] at hcell hgood
      obtain ⟨holder, first, cells, hheld, hchain, hmem⟩ := hpart.covered hcell hgood
      exact ⟨holder, first, cells, (hholds holder first).mpr (.inl hheld), hkept hchain, hmem⟩

/-- The chain of a holder is freed, and it no longer holds it. -/
lemma Partitioned.remove (howner : holds owner first)
    (hchain : Chain table first cells) (hfreed : ∀ cell ∈ cells, table' cell = .free)
    (hsame : ∀ cell, cell ∉ cells → table' cell = table cell)
    (hholds : ∀ holder second, holds' holder second ↔
      holds holder second ∧ (holder, second) ≠ (owner, first)) : Partitioned table' holds' := by
  have hkept : ∀ {holder second others}, holds' holder second → Chain table second others →
      Chain table' second others := by
    intro holder second others hholder hothers
    obtain ⟨hheld, hne⟩ := (hholds holder second).mp hholder
    exact hothers.congr fun cell hcell => hsame cell fun hmem =>
      hpart.apart hheld howner hne hothers hchain hcell hmem
  have hold : ∀ {holder second others}, holds' holder second → Chain table' second others →
      Chain table second others := by
    intro holder second others hholder hothers
    obtain ⟨old, hchained⟩ := hpart.chained ((hholds holder second).mp hholder).1
    rwa [hothers.unique (hkept hholder hchained)]
  refine ⟨?_, ?_, ?_⟩
  · intro holder second hholder
    obtain ⟨others, hothers⟩ := hpart.chained ((hholds holder second).mp hholder).1
    exact ⟨others, hkept hholder hothers⟩
  · intro holder other first' second cells' others hfirst hsnd hne hcells hothers
    exact hpart.apart ((hholds _ _).mp hfirst).1 ((hholds _ _).mp hsnd).1 hne (hold hfirst hcells)
      (hold hsnd hothers)
  · intro cell hcell hgood
    have hmem : cell ∉ cells := fun hmem => hcell (hfreed cell hmem)
    rw [hsame cell hmem] at hcell hgood
    obtain ⟨holder, second, others, hheld, hothers, hin⟩ := hpart.covered hcell hgood
    have hne : (holder, second) ≠ (owner, first) := by
      intro heq
      obtain ⟨rfl, rfl⟩ := Prod.mk.inj heq
      exact hmem (hothers.unique hchain ▸ hin)
    have hholder : holds' holder second := (hholds holder second).mpr ⟨hheld, hne⟩
    exact ⟨holder, second, others, hholder, hkept hholder hothers, hin⟩

end ChainTable
