import NexOS.Fat32.Volume
import NexOS.Lib.HeldChains

/-! # Chains of a volume

The first table links the clusters of a volume to chains. On a chain that ends, every
scan goes over exactly its clusters. Allocation takes a free cluster, appending links it
to the last cluster of a chain, and freeing a chain frees its clusters and no others.
-/

namespace NexOS.Fat32.Geometry

open Function List ChainTable

variable {g : Geometry} {d d' : Disk} {cluster first value : Nat} {cells : List Nat}

/-- What a value of the table says. -/
def linkOf (value : Nat) : Link Nat :=
  if value = 0 then .free
  else if value = clusterBad then .bad
  else if clusterEnd ≤ value then .last
  else .next value

/-- The table as links between the clusters. -/
def link (g : Geometry) (disk : Disk) (cluster : Nat) : Link Nat :=
  if g.clusterIsData cluster then linkOf (disk.fat 0 cluster % 2 ^ 28) else .free

/-- All the tables are equal. -/
def Mirrored (g : Geometry) (disk : Disk) : Prop :=
  ∀ table < g.tableCount, disk.fat table = disk.fat 0

lemma clusterIsData_iff : g.clusterIsData cluster = true ↔
    2 ≤ cluster ∧ cluster < g.clusterCount + 2 := by
  simp [clusterIsData]

lemma clusterIsData_root : g.clusterIsData g.rootCluster = true :=
  clusterIsData_iff.mpr g.root_data

variable (hdata : g.clusterIsData cluster = true)

include hdata in
/-- The number of a cluster is not a mark. -/
lemma lt_clusterEnd_of_isData : cluster ≠ 0 ∧ cluster < clusterEnd := by
  have hcount := g.count_le
  have hrange := clusterIsData_iff.mp hdata
  unfold clusterEnd
  omega

include hdata in
lemma linkOf_of_isData : linkOf cluster = .next cluster := by
  have hcount := g.count_le
  have hrange := clusterIsData_iff.mp hdata
  rw [linkOf, if_neg (by omega), if_neg, if_neg]
  · unfold clusterEnd
    omega
  · unfold clusterBad
    omega

lemma isData_of_link_ne_free (hlink : g.link d cluster ≠ .free) :
    g.clusterIsData cluster = true := by
  by_contra hdata
  exact hlink (if_neg hdata)

include hdata in
lemma nextCluster_of_isData : g.nextCluster d cluster =
      let next := d.fat 0 cluster % 2 ^ 28
      if next ≠ 0 ∧ next < clusterEnd ∧ g.clusterIsData next = false then none else some next := by
  rw [nextCluster, if_neg (by simp [hdata])]

lemma nextCluster_of_last (hlink : g.link d cluster = .last) :
    ∃ next, g.nextCluster d cluster = some next ∧ clusterEnd ≤ next := by
  have hdata : g.clusterIsData cluster = true := isData_of_link_ne_free (by rw [hlink]; exact nofun)
  rw [link, linkOf] at hlink
  split_ifs at hlink with hzero hbad hend
  refine ⟨_, ?_, hend⟩
  rw [nextCluster_of_isData hdata]
  exact if_neg (by omega)

lemma nextCluster_of_next {next : Nat} (hlink : g.link d cluster = .next next)
    (hnext : g.clusterIsData next = true) : g.nextCluster d cluster = some next := by
  have hdata : g.clusterIsData cluster = true := isData_of_link_ne_free (by rw [hlink]; exact nofun)
  rw [link, linkOf] at hlink
  split_ifs at hlink with hzero hbad hend
  have hvalue := Link.next.inj hlink
  rw [nextCluster_of_isData hdata]
  rw [hvalue, if_neg (by simp [hnext])]

lemma link_eq_free_of_nextCluster (hnext : g.nextCluster d cluster = some 0) :
    g.clusterIsData cluster = true ∧ g.link d cluster = .free := by
  by_cases hdata : g.clusterIsData cluster = true
  · rw [nextCluster_of_isData hdata] at hnext
    dsimp only at hnext
    split_ifs at hnext
    refine ⟨hdata, ?_⟩
    rw [link, if_pos hdata, Option.some.inj hnext]
    rfl
  · rw [nextCluster, if_pos (by simpa using hdata)] at hnext
    cases hnext

lemma nextCluster_of_bad (hlink : g.link d cluster = .bad) : g.nextCluster d cluster = none := by
  have hcount := g.count_le
  have hdata : g.clusterIsData cluster = true := isData_of_link_ne_free (by rw [hlink]; exact nofun)
  rw [link, linkOf] at hlink
  split_ifs at hlink with hzero hbad
  rw [nextCluster_of_isData hdata]
  rw [hbad]
  refine if_pos ⟨by decide, by decide, ?_⟩
  rw [← Bool.not_eq_true, clusterIsData_iff]
  unfold clusterBad
  omega

/-! ## Writing a table -/

include hdata in
lemma link_setEntry : g.link { d with fat := g.setEntry d.fat cluster value } =
      update (g.link d) cluster (linkOf (value % 2 ^ 28)) := by
  funext k
  by_cases hk : k = cluster
  · subst hk
    have hvalue : g.setEntry d.fat k value 0 k % 2 ^ 28 = value % 2 ^ 28 := by
      rw [setEntry, if_pos ⟨g.tables_pos, rfl⟩]
      omega
    rw [update_self, link, if_pos hdata]
    rw [hvalue]
  · have hvalue : g.setEntry d.fat cluster value 0 k = d.fat 0 k := if_neg fun h => hk h.2
    rw [update_of_ne hk, link, link]
    dsimp only
    rw [hvalue]

lemma Mirrored.setEntry (hmirror : g.Mirrored d) :
    g.Mirrored { d with fat := g.setEntry d.fat cluster value } := by
  intro table htable
  funext k
  simp only [Geometry.setEntry, htable, g.tables_pos, hmirror table htable]

include hdata in
lemma writeFatEntry_of_isData
    (hvalue : value = 0 ∨ clusterEnd ≤ value ∨ g.clusterIsData value = true) :
    g.writeFatEntry d cluster value =
      some { d with fat := g.setEntry d.fat cluster value } := by
  rw [writeFatEntry, if_neg (by simp [hdata]), if_neg]
  rintro ⟨hzero, hlt, hnot⟩
  rcases hvalue with hvalue | hvalue | hvalue
  · exact hzero hvalue
  · omega
  · exact absurd hvalue (by simp [hnot])

/-! ## Chains -/

variable (hchain : Chain (g.link d) first cells)

include hchain

lemma isData_of_mem_chain {c : Nat} (hc : c ∈ cells) : g.clusterIsData c = true :=
  isData_of_link_ne_free (hchain.not_free hc)

/-- A chain does not have more clusters than there are. -/
lemma length_chain_le : cells.length ≤ g.clusterCount := by
  have hsub : cells ⊆ List.range' 2 g.clusterCount := by
    intro c hc
    have hrange := clusterIsData_iff.mp (isData_of_mem_chain hchain hc)
    rw [mem_range'_1]
    omega
  have hlen := (subperm_of_subset hchain.nodup hsub).length_le
  rwa [length_range'] at hlen

omit hchain

lemma walk_eq_nil_of_end (fuel : Nat) {next : Nat} (hend : clusterEnd ≤ next) :
    g.walk d fuel next = [] := by
  cases fuel with
  | zero => rfl
  | succ fuel =>
    rw [walk]
    by_contra hdata
    have hlt := lt_clusterEnd_of_isData (by simpa using hdata : g.clusterIsData next = true)
    omega

include hchain in
/-- A scan goes over the clusters of a chain and then ends. -/
lemma walk_of_chain {fuel : Nat} (hfuel : cells.length ≤ fuel) : g.walk d fuel first = cells := by
  induction hchain generalizing fuel with
  | @last cell hlast =>
    obtain ⟨fuel, rfl⟩ := Nat.exists_eq_add_of_lt (Nat.lt_of_lt_of_le Nat.zero_lt_one hfuel)
    obtain ⟨next, hnext, hend⟩ := nextCluster_of_last hlast
    have hdata : g.clusterIsData cell = true := isData_of_link_ne_free (by rw [hlast]; exact nofun)
    rw [walk, if_neg (by simp [hdata]), hnext]
    dsimp only
    rw [walk_eq_nil_of_end _ hend]
  | @next cell after rest hlink hrest ih =>
    obtain ⟨fuel, rfl⟩ := Nat.exists_eq_add_of_lt (Nat.lt_of_lt_of_le (Nat.succ_pos _) hfuel)
    have hdata : g.clusterIsData cell = true := isData_of_link_ne_free (by rw [hlink]; exact nofun)
    have hafter := isData_of_mem_chain hrest hrest.mem_first
    rw [walk, if_neg (by simp [hdata]), nextCluster_of_next hlink hafter]
    dsimp only
    rw [ih (by simpa using hfuel)]

lemma dirFirstCluster_of_isData (hdata : g.clusterIsData first = true) :
    g.dirFirstCluster first = first :=
  if_pos hdata

include hchain

lemma dirFirstCluster_of_chain : g.dirFirstCluster first = first :=
  dirFirstCluster_of_isData (isData_of_mem_chain hchain hchain.mem_first)

lemma dirClusters_of_chain : g.dirClusters d first = cells := by
  rw [dirClusters, dirFirstCluster_of_chain hchain, walk_of_chain hchain (length_chain_le hchain)]

lemma dirSlots_of_chain : g.dirSlots d first = cells.flatMap (g.clusterSlots d) := by
  rw [dirSlots, dirClusters_of_chain hchain]

omit hchain

lemma clusterSlots_congr {c : Nat} (hsame : d'.data c = d.data c) :
    g.clusterSlots d' c = g.clusterSlots d c := by
  refine map_congr_left fun i _ => ?_
  funext b
  simp only [slotAt, hsame]

include hchain in
/-- A directory has the same slots if its chain and the bytes on it are the same. -/
lemma dirSlots_congr (hchain' : Chain (g.link d') first cells)
    (hsame : ∀ c ∈ cells, d'.data c = d.data c) :
    g.dirSlots d' first = g.dirSlots d first := by
  rw [dirSlots_of_chain hchain, dirSlots_of_chain hchain']
  exact flatMap_congr fun c hc => clusterSlots_congr (hsame c hc)

/-! ## Allocation -/

/-- What allocation does: a free cluster is marked as the end of a chain and cleared. -/
structure Allocates (g : Geometry) (disk : Disk) (new : Nat) (disk' : Disk) : Prop where
  isData : g.clusterIsData new = true
  wasFree : g.link disk new = .free
  noneBad : ∀ c < new, g.link disk c ≠ .bad
  link_eq : g.link disk' = update (g.link disk) new .last
  mirrored : g.Mirrored disk → g.Mirrored disk'
  data_eq : disk'.data = update disk.data new fun _ => 0

lemma allocates_of_allocFrom {new rest : Nat} (hpassed : ∀ c < cluster, g.link d c ≠ .bad)
    (halloc : g.allocFrom d cluster rest = some (new, d')) : Allocates g d new d' := by
  induction rest generalizing cluster with
  | zero => cases halloc
  | succ rest ih =>
    rw [allocFrom] at halloc
    rcases hnext : g.nextCluster d cluster with _ | value
    · simp [hnext] at halloc
    simp only [hnext] at halloc
    by_cases hvalue : value = 0
    · subst hvalue
      obtain ⟨hdata, hfree⟩ := link_eq_free_of_nextCluster hnext
      rw [writeFatEntry_of_isData hdata (.inr (.inl le_rfl))] at halloc
      obtain ⟨rfl, rfl⟩ := halloc
      exact ⟨hdata, hfree, hpassed, link_setEntry hdata, fun hmirror => hmirror.setEntry, rfl⟩
    · rw [if_pos hvalue] at halloc
      refine ih (fun c hc hbad => ?_) halloc
      rcases Nat.lt_succ_iff_lt_or_eq.mp hc with hc | rfl
      · exact hpassed c hc hbad
      · rw [nextCluster_of_bad hbad] at hnext
        cases hnext

lemma allocates_of_allocCluster {new : Nat} (halloc : g.allocCluster d = some (new, d')) :
    Allocates g d new d' := by
  refine allocates_of_allocFrom (fun c hc hbad => ?_) halloc
  have hdata := clusterIsData_iff.mp (isData_of_link_ne_free (by rw [hbad]; exact nofun))
  omega

/-- What appending does to a cluster that was the last of its chain. -/
structure Appends (g : Geometry) (disk : Disk) (tail new : Nat) (disk' : Disk) : Prop where
  isData : g.clusterIsData new = true
  wasFree : g.link disk new = .free
  noneBad : ∀ c < new, g.link disk c ≠ .bad
  link_tail : g.link disk' tail = .next new
  link_new : g.link disk' new = .last
  link_same : ∀ c, c ≠ tail → c ≠ new → g.link disk' c = g.link disk c
  mirrored : g.Mirrored disk → g.Mirrored disk'
  data_eq : disk'.data = update disk.data new fun _ => 0

/-- Appending fails and changes nothing, or links a new cluster. -/
lemma appendFileCluster_cases {tail : Nat} (hlast : g.link d tail = .last) :
    g.appendFileCluster d tail = (none, d) ∨
      ∃ new d', g.appendFileCluster d tail = (some new, d') ∧ Appends g d tail new d' := by
  have hdata : g.clusterIsData tail = true := isData_of_link_ne_free (by rw [hlast]; exact nofun)
  rw [appendFileCluster, if_neg (by simp [hdata])]
  rcases halloc : g.allocCluster d with _ | found
  · exact .inl rfl
  obtain ⟨new, mid⟩ := found
  have hallocates := allocates_of_allocCluster halloc
  have hne : new ≠ tail := by
    rintro rfl
    exact absurd (hallocates.wasFree.symm.trans hlast) nofun
  have hmark := lt_clusterEnd_of_isData hallocates.isData
  have hlink : linkOf (new % 2 ^ 28) = .next new := by
    have hsmall : new % 2 ^ 28 = new := Nat.mod_eq_of_lt (by unfold clusterEnd at hmark; omega)
    rw [hsmall, linkOf_of_isData hallocates.isData]
  right
  dsimp only
  rw [writeFatEntry_of_isData hdata (.inr (.inr hallocates.isData))]
  refine ⟨new, _, rfl, hallocates.isData, hallocates.wasFree, hallocates.noneBad, ?_, ?_, ?_, ?_,
    hallocates.data_eq⟩
  · rw [link_setEntry hdata, update_self, hlink]
  · rw [link_setEntry hdata, update_of_ne hne, hallocates.link_eq, update_self]
  · intro c htail hnew
    rw [link_setEntry hdata, update_of_ne htail, hallocates.link_eq, update_of_ne hnew]
  · exact fun hmirror => (hallocates.mirrored hmirror).setEntry

include hchain in
lemma lastCluster_of_chain {fuel : Nat} (hfuel : cells.length ≤ fuel) :
    ∃ tail, g.lastCluster d fuel first = some tail ∧ tail ∈ cells ∧ g.link d tail = .last := by
  induction hchain generalizing fuel with
  | @last cell hlast =>
    obtain ⟨fuel, rfl⟩ := Nat.exists_eq_add_of_lt (Nat.lt_of_lt_of_le Nat.zero_lt_one hfuel)
    obtain ⟨next, hnext, hend⟩ := nextCluster_of_last hlast
    refine ⟨cell, ?_, mem_cons_self, hlast⟩
    rw [lastCluster, hnext]
    exact if_pos hend
  | @next cell after rest hlink hrest ih =>
    obtain ⟨fuel, rfl⟩ := Nat.exists_eq_add_of_lt (Nat.lt_of_lt_of_le (Nat.succ_pos _) hfuel)
    have hafter := isData_of_mem_chain hrest hrest.mem_first
    obtain ⟨tail, htail, hmem, hlast⟩ := @ih (0 + fuel) (by simpa using hfuel)
    refine ⟨tail, ?_, mem_cons_of_mem _ hmem, hlast⟩
    have hmark := lt_clusterEnd_of_isData hafter
    rw [lastCluster, nextCluster_of_next hlink hafter]
    dsimp only
    rw [if_neg (by omega), if_neg (by simp [hafter]), htail]

/-! ## Freeing -/

/-- What freeing a chain does. -/
structure Frees (g : Geometry) (disk : Disk) (cells : List Nat) (disk' : Disk) : Prop where
  freed : ∀ c ∈ cells, g.link disk' c = .free
  link_same : ∀ c, c ∉ cells → g.link disk' c = g.link disk c
  mirrored : g.Mirrored disk → g.Mirrored disk'
  data_eq : disk'.data = disk.data

include hchain

lemma freeLoop_of_chain {rounds : Nat} (hrounds : cells.length ≤ rounds) :
    ∃ d', g.freeLoop d first rounds = (true, d') ∧ Frees g d cells d' := by
  induction cells generalizing d first rounds with
  | nil => exact absurd hchain.mem_first not_mem_nil
  | cons cell rest ih =>
    obtain ⟨rounds, rfl⟩ := Nat.exists_eq_add_of_lt (Nat.lt_of_lt_of_le (Nat.succ_pos _) hrounds)
    have hnodup := hchain.nodup
    have hdata := isData_of_mem_chain hchain hchain.mem_first
    have hwrite := @writeFatEntry_of_isData g d first 0 hdata (.inl rfl)
    have hlink := @link_setEntry g d first 0 hdata
    cases hchain with
    | last hlast =>
      obtain ⟨next, hnext, hend⟩ := nextCluster_of_last hlast
      rw [freeLoop, hnext]
      rw [hwrite]
      dsimp only
      rw [if_pos hend]
      refine ⟨_, rfl, ?_, ?_, fun hmirror => hmirror.setEntry, rfl⟩
      · intro c hc
        rw [mem_singleton.mp hc, hlink, update_self]
        rfl
      · intro c hc
        rw [hlink, update_of_ne (by simpa using hc)]
    | @next _ after _ hnextLink hrest =>
      have hafter := isData_of_mem_chain hrest hrest.mem_first
      have hmark := lt_clusterEnd_of_isData hafter
      rw [freeLoop, nextCluster_of_next hnextLink hafter]
      rw [hwrite]
      dsimp only
      rw [if_neg (by omega), if_neg (by simp [hafter])]
      -- the rest of the chain is as it was
      have hrest' : Chain (g.link { d with fat := g.setEntry d.fat cell 0 }) after rest := by
        refine hrest.congr fun c hc => ?_
        rw [hlink, update_of_ne]
        rintro rfl
        exact (nodup_cons.mp hnodup).1 hc
      obtain ⟨d', hloop, hfrees⟩ := @ih _ after hrest' (0 + rounds) (by simpa using hrounds)
      refine ⟨d', hloop, ?_, ?_, fun hmirror => hfrees.mirrored hmirror.setEntry, hfrees.data_eq⟩
      · intro c hc
        by_cases hmem : c ∈ rest
        · exact hfrees.freed c hmem
        · obtain rfl : c = cell := (mem_cons.mp hc).resolve_right hmem
          rw [hfrees.link_same c hmem, hlink, update_self]
          rfl
      · intro c hc
        rw [mem_cons, not_or] at hc
        rw [hfrees.link_same c hc.2, hlink, update_of_ne hc.1]

lemma freeClusterChain_of_chain :
    ∃ d', g.freeClusterChain d first = (true, d') ∧ Frees g d cells d' := by
  have hdata := isData_of_mem_chain hchain hchain.mem_first
  rw [freeClusterChain, if_neg (by simp [hdata])]
  exact freeLoop_of_chain hchain (Nat.le_succ_of_le (length_chain_le hchain))

end NexOS.Fat32.Geometry
