import NexOS.Lib.ChainTable

/-! # Directories that hold chains

A directory lists entries, and an entry holds a chain that is named by its first cell.
Entries that are directories lead to further listings, so that the holders of chains
are the root and the entries of the directories that are reached from it. One more
chain can be put aside while no entry holds it yet.
-/

namespace ChainTable

/-- An entry that holds a chain: whether it is a directory, and the first cell. -/
structure Held (Cell : Type) where
  isDir : Bool
  first : Cell
  deriving DecidableEq

/-- What a directory holds at a place. -/
abbrev Listings (Cell Place : Type) : Type := Cell → Place → Option (Held Cell)

/-- Who can hold a chain. -/
inductive Holder (Cell Place : Type) where
  | root
  | entry (dir : Cell) (place : Place)
  | aside
  deriving DecidableEq

variable {Cell Place : Type} {root : Cell} {listings listings' : Listings Cell Place}

/-- The directories, by the first cells of their chains. -/
inductive Reach (root : Cell) (listings : Listings Cell Place) : Cell → Prop
  | root : Reach root listings root
  | enter {dir first : Cell} {place : Place} (hdir : Reach root listings dir)
      (hentry : listings dir place = some ⟨true, first⟩) : Reach root listings first

/-- The first cell is that of a chain the holder has. -/
def Holds (root : Cell) (listings : Listings Cell Place) (aside : Option Cell) :
    Holder Cell Place → Cell → Prop
  | .root, first => first = root
  | .entry dir place, first =>
    Reach root listings dir ∧ ∃ isDir, listings dir place = some ⟨isDir, first⟩
  | .aside, first => aside = some first

/-- The chains of the holders partition the table. -/
def Consistent (table : Cell → Link Cell) (root : Cell) (listings : Listings Cell Place)
    (aside : Option Cell) : Prop :=
  Partitioned table (Holds root listings aside)

variable {table table' : Cell → Link Cell} {aside : Option Cell} {dir parent first : Cell}
  {place : Place} {cells : List Cell}

lemma Reach.exists_holder (hdir : Reach root listings dir) :
    ∃ holder, Holds root listings aside holder dir ∧ (holder = .root ∨
      ∃ parent place, holder = .entry parent place ∧ listings parent place = some ⟨true, dir⟩) := by
  cases hdir with
  | root => exact ⟨.root, rfl, .inl rfl⟩
  | enter hpar hentry => exact ⟨.entry _ _, ⟨hpar, true, hentry⟩, .inr ⟨_, _, rfl, hentry⟩⟩

variable (hcons : Consistent table root listings aside) {others : List Cell}

include hcons

lemma Consistent.exists_chain
    (hdir : Reach root listings dir) : ∃ cells, Chain table dir cells := by
  obtain ⟨holder, hholder, -⟩ := @Reach.exists_holder _ _ _ _ aside _ hdir
  exact hcons.chained hholder

/-- The chains of two directories do not meet. -/
lemma Consistent.dirs_apart
    (hdir : Reach root listings dir) (hother : Reach root listings first) (hne : dir ≠ first)
    (hcells : Chain table dir cells) (hothers : Chain table first others) :
    cells.Disjoint others := by
  obtain ⟨holder, hholder, -⟩ := @Reach.exists_holder _ _ _ _ aside _ hdir
  obtain ⟨holder', hholder', -⟩ := @Reach.exists_holder _ _ _ _ aside _ hother
  exact hcons.apart hholder hholder' (fun heq => hne (Prod.mk.inj heq).2) hcells hothers

/-- The chain of a file does not meet that of a directory. -/
lemma Consistent.file_apart
    (hpar : Reach root listings parent) (hentry : listings parent place = some ⟨false, first⟩)
    (hdir : Reach root listings dir) (hcells : Chain table first cells)
    (hothers : Chain table dir others) : cells.Disjoint others := by
  obtain ⟨holder, hholder, hcases⟩ := @Reach.exists_holder _ _ _ _ aside _ hdir
  have hfile : Holds root listings aside (.entry parent place) first := ⟨hpar, false, hentry⟩
  refine hcons.apart hfile hholder (fun heq => ?_) hcells hothers
  obtain ⟨rfl, rfl⟩ := Prod.mk.inj heq
  rcases hcases with hroot | ⟨_, _, hsame, hdirEntry⟩
  · cases hroot
  · obtain ⟨rfl, rfl⟩ := Holder.entry.inj hsame
    rw [hentry] at hdirEntry
    exact absurd (Option.some.inj hdirEntry) nofun

omit hcons

/-- The chain that was put aside does not meet that of a directory. -/
lemma Consistent.aside_apart (hcons : Consistent table root listings (some first))
    (hdir : Reach root listings dir) (hcells : Chain table first cells)
    (hothers : Chain table dir others) : cells.Disjoint others := by
  obtain ⟨holder, hholder, hcases⟩ := @Reach.exists_holder _ _ _ _ (some first) _ hdir
  have haside : Holds root listings (some first) .aside first := rfl
  refine hcons.apart haside hholder (fun heq => ?_) hcells hothers
  obtain ⟨rfl, rfl⟩ := Prod.mk.inj heq
  rcases hcases with hroot | ⟨_, _, hsame, -⟩
  · cases hroot
  · cases hsame

/-! ## Directories after a change -/

/-- The directories stay the same if they list the same directories. -/
lemma reach_congr (hdirs : ∀ dir, Reach root listings dir → ∀ place first,
      listings' dir place = some ⟨true, first⟩ ↔ listings dir place = some ⟨true, first⟩) :
    Reach root listings' dir ↔ Reach root listings dir := by
  constructor
  · intro hreach
    induction hreach with
    | root => exact .root
    | enter _ hentry ih => exact .enter ih ((hdirs _ ih _ _).mp hentry)
  · intro hreach
    induction hreach with
    | root => exact .root
    | enter hdir hentry ih => exact .enter ih ((hdirs _ hdir _ _).mpr hentry)

/-- One directory joins that lists none. -/
lemma reach_add (hpar : Reach root listings parent)
    (hdirs : ∀ dir, Reach root listings dir → ∀ spot next, listings' dir spot = some ⟨true, next⟩ ↔
      listings dir spot = some ⟨true, next⟩ ∨ (dir = parent ∧ spot = place ∧ next = first))
    (hempty : ∀ spot next, listings' first spot ≠ some ⟨true, next⟩) :
    Reach root listings' dir ↔ Reach root listings dir ∨ dir = first := by
  have hkept : ∀ {dir}, Reach root listings dir → Reach root listings' dir := by
    intro dir hreach
    induction hreach with
    | root => exact .root
    | enter hdir hentry ih => exact .enter ih ((hdirs _ hdir _ _).mpr (.inl hentry))
  constructor
  · intro hreach
    induction hreach with
    | root => exact .inl .root
    | enter _ hentry ih =>
      rcases ih with hdir | rfl
      · rcases (hdirs _ hdir _ _).mp hentry with hold | ⟨-, -, rfl⟩
        · exact .inl (.enter hdir hold)
        · exact .inr rfl
      · exact absurd hentry (hempty _ _)
  · rintro (hreach | rfl)
    · exact hkept hreach
    · exact .enter (hkept hpar) ((hdirs parent hpar place dir).mpr (.inr ⟨rfl, rfl, rfl⟩))

/-- One directory leaves that lists none. -/
lemma reach_remove (hroot : first ≠ root) (hentry : listings parent place = some ⟨true, first⟩)
    (hdirs : ∀ dir, Reach root listings dir → dir ≠ first → ∀ spot next,
      listings' dir spot = some ⟨true, next⟩ ↔
        listings dir spot = some ⟨true, next⟩ ∧ ¬ (dir = parent ∧ spot = place))
    (hempty : ∀ spot next, listings first spot ≠ some ⟨true, next⟩)
    (huniq : ∀ dir spot, Reach root listings dir → listings dir spot = some ⟨true, first⟩ →
      dir = parent ∧ spot = place) :
    Reach root listings' dir ↔ Reach root listings dir ∧ dir ≠ first := by
  constructor
  · intro hreach
    induction hreach with
    | root => exact ⟨.root, hroot.symm⟩
    | enter _ hnext ih =>
      obtain ⟨hold, hother⟩ := (hdirs _ ih.1 ih.2 _ _).mp hnext
      refine ⟨.enter ih.1 hold, ?_⟩
      rintro rfl
      exact hother (huniq _ _ ih.1 hold)
  · rintro ⟨hreach, hne⟩
    induction hreach with
    | root => exact .root
    | @enter dir next spot hdir hnext ih =>
      have hdirNe : dir ≠ first := by
        rintro rfl
        exact hempty _ _ hnext
      refine .enter (ih hdirNe) ((hdirs dir hdir hdirNe spot next).mpr ⟨hnext, ?_⟩)
      rintro ⟨rfl, rfl⟩
      exact hne (Held.mk.inj (Option.some.inj (hnext.symm.trans hentry))).2

/-! ## Changes that keep the chains a partition -/

include hcons in
/-- Directories list what they listed. -/
lemma Consistent.keep (hsame : ∀ dir, Reach root listings dir → listings' dir = listings dir) :
    Consistent table root listings' aside := by
  have hreach : ∀ dir, Reach root listings' dir ↔ Reach root listings dir := fun dir =>
    reach_congr fun dir hdir place first => by rw [hsame dir hdir]
  refine Partitioned.congr hcons fun holder first => ?_
  cases holder with
  | root => exact Iff.rfl
  | aside => exact Iff.rfl
  | entry dir place =>
    simp only [Holds, hreach]
    exact and_congr_right fun hdir => by rw [hsame dir hdir]

/-- A free cell is put aside as a chain of its own. -/
lemma Consistent.setAside {new : Cell} (hcons : Consistent table root listings none)
    (hfree : table new = .free) (hsame : ∀ cell, cell ≠ new → table' cell = table cell)
    (hnew : table' new = .last) : Consistent table' root listings (some new) := by
  refine @Partitioned.insert _ _ _ _ _ _ .aside hcons _ hfree hsame hnew fun holder first => ?_
  cases holder <;> simp [Holds, eq_comm]

/-- The chain that was put aside is freed. -/
lemma Consistent.dropAside (hcons : Consistent table root listings (some first))
    (hchain : Chain table first cells) (hfreed : ∀ cell ∈ cells, table' cell = .free)
    (hsame : ∀ cell, cell ∉ cells → table' cell = table cell) :
    Consistent table' root listings none := by
  have haside : Holds root listings (some first) .aside first := rfl
  refine Partitioned.remove hcons haside hchain hfreed hsame fun holder second => ?_
  cases holder <;> simp [Holds, eq_comm]

lemma Partitioned.rename {Holder : Type} {holds holds' : Holder → Cell → Prop}
    (hpart : Partitioned table holds) (names : Equiv.Perm Holder)
    (hholds : ∀ holder first, holds' holder first ↔ holds (names holder) first) :
    Partitioned table holds' := by
  refine ⟨fun {holder first} hholder => hpart.chained ((hholds holder first).mp hholder), ?_, ?_⟩
  · intro holder other first second cells others hfirst hsnd hne
    refine hpart.apart ((hholds _ _).mp hfirst) ((hholds _ _).mp hsnd) fun heq => hne ?_
    obtain ⟨hnames, rfl⟩ := Prod.mk.inj heq
    rw [names.injective hnames]
  · intro cell hcell hgood
    obtain ⟨holder, first, cells, hholder, hchain, hmem⟩ := hpart.covered hcell hgood
    refine ⟨names.symm holder, first, cells, ?_, hchain, hmem⟩
    rwa [hholds, Equiv.apply_symm_apply]

section Place

variable [DecidableEq Cell] [DecidableEq Place]

/-- A new entry takes over the chain that was put aside. If it is a directory, it lists
nothing. -/
lemma Consistent.handOver {isDir : Bool} (hcons : Consistent table root listings (some first))
    (hpar : Reach root listings parent) (hvac : listings parent place = none)
    (hlist : ∀ dir, Reach root listings dir → ∀ spot, listings' dir spot =
      if dir = parent ∧ spot = place then some ⟨isDir, first⟩ else listings dir spot)
    (hempty : isDir = true → ∀ spot, listings' first spot = none) :
    Consistent table root listings' none := by
  have hreach : ∀ dir, Reach root listings' dir ↔
      Reach root listings dir ∨ (isDir = true ∧ dir = first) := by
    intro dir
    cases isDir with
    | true =>
      simp only [true_and]
      refine @reach_add _ _ _ _ _ _ _ _ place hpar (fun dir hdir spot next => ?_)
        fun spot next => by simp [hempty rfl spot]
      rw [hlist dir hdir]
      split
      next hhere =>
        obtain ⟨rfl, rfl⟩ := hhere
        simp [hvac, eq_comm]
      next hother => tauto
    | false =>
      simp only [Bool.false_eq_true, false_and, or_false]
      refine reach_congr fun dir hdir spot next => ?_
      rw [hlist dir hdir]
      split
      next hhere =>
        obtain ⟨rfl, rfl⟩ := hhere
        simp [hvac]
      · exact Iff.rfl
  -- the entry and what was put aside change places
  refine Partitioned.rename hcons (Equiv.swap .aside (.entry parent place)) fun holder second => ?_
  cases holder with
  | root =>
    exact Iff.rfl
  | aside =>
    simp [Holds, hvac]
  | entry dir spot =>
    by_cases hhere : dir = parent ∧ spot = place
    · obtain ⟨rfl, rfl⟩ := hhere
      simp [Holds, hreach, hpar, hlist dir hpar]
    have hswap : Equiv.swap Holder.aside (Holder.entry parent place) (.entry dir spot) =
        .entry dir spot :=
      Equiv.swap_apply_of_ne_of_ne nofun fun heq => hhere (Holder.entry.inj heq)
    rw [hswap]
    simp only [Holds, hreach]
    constructor
    · rintro ⟨hdir | ⟨hisDir, rfl⟩, hentry⟩
      · rw [hlist dir hdir, if_neg hhere] at hentry
        exact ⟨hdir, hentry⟩
      · simp [hempty hisDir] at hentry
    · rintro ⟨hdir, hentry⟩
      rw [hlist dir hdir, if_neg hhere]
      exact ⟨.inl hdir, hentry⟩

/-- An entry leaves and its chain is freed. If it is a directory, it lists nothing. -/
lemma Consistent.release {isDir : Bool} (hcons : Consistent table root listings none)
    (hpar : Reach root listings parent) (hentry : listings parent place = some ⟨isDir, first⟩)
    (hchain : Chain table first cells) (hfreed : ∀ cell ∈ cells, table' cell = .free)
    (hsame : ∀ cell, cell ∉ cells → table' cell = table cell)
    (hlisted : ∀ dir, Reach root listings dir → (isDir = true → dir ≠ first) → ∀ spot,
      listings' dir spot = if dir = parent ∧ spot = place then none else listings dir spot)
    (hempty : isDir = true → ∀ spot, listings first spot = none) :
    Consistent table' root listings' none := by
  have howner : Holds root listings none (.entry parent place) first := ⟨hpar, isDir, hentry⟩
  have hreach : ∀ dir, Reach root listings' dir ↔
      Reach root listings dir ∧ (isDir = true → dir ≠ first) := by
    intro dir
    cases isDir with
    | true =>
      simp only [forall_const]
      -- the chain of the directory is that of no other holder
      have hother : ∀ holder, Holds root listings none holder first →
          holder = .entry parent place := by
        intro holder hholder
        by_contra hne
        exact hcons.apart hholder howner (fun heq => hne (Prod.mk.inj heq).1) hchain hchain
          hchain.mem_first hchain.mem_first
      have hroot : first ≠ root := by
        rintro rfl
        exact absurd (hother .root rfl) nofun
      refine reach_remove hroot hentry (fun dir hdir hne spot next => ?_)
        (fun spot next => by simp [hempty rfl spot]) fun dir spot hdir hfirst => ?_
      · rw [hlisted dir hdir fun _ => hne]
        split
        next hhere => simp [hhere]
        next hhere => simp [hhere]
      · exact Holder.entry.inj (hother (.entry dir spot) ⟨hdir, true, hfirst⟩)
    | false =>
      simp only [Bool.false_eq_true, false_implies, and_true]
      refine reach_congr fun dir hdir spot next => ?_
      rw [hlisted dir hdir nofun]
      split
      next hhere =>
        obtain ⟨rfl, rfl⟩ := hhere
        simp [hentry]
      · exact Iff.rfl
  refine Partitioned.remove hcons howner hchain hfreed hsame fun holder second => ?_
  cases holder with
  | root => simp [Holds]
  | aside => simp [Holds]
  | entry dir spot =>
    simp only [Holds, hreach, ne_eq, Prod.mk.injEq, Holder.entry.injEq]
    constructor
    · rintro ⟨⟨hdir, hne⟩, b, hlist⟩
      rw [hlisted dir hdir hne] at hlist
      split at hlist
      · cases hlist
      next hhere => exact ⟨⟨hdir, b, hlist⟩, fun h => hhere h.1⟩
    · rintro ⟨⟨hdir, b, hlist⟩, hne⟩
      have hhere : ¬ (dir = parent ∧ spot = place) := by
        rintro ⟨rfl, rfl⟩
        rw [hentry] at hlist
        exact hne ⟨⟨rfl, rfl⟩, (Held.mk.inj (Option.some.inj hlist)).2.symm⟩
      have hdirNe : isDir = true → dir ≠ first := by
        rintro hisDir rfl
        simp [hempty hisDir spot] at hlist
      refine ⟨⟨hdir, hdirNe⟩, b, ?_⟩
      rw [hlisted dir hdir hdirNe, if_neg hhere]
      exact hlist

end Place

end ChainTable
