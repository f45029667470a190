import NexOS.Fat32.VolumeRuns

/-! # Which cluster is allocated

Allocation reads the table from the first cluster on through the function that follows
chains. That function refuses the mark of a bad cluster, so that the scan ends there
and a free cluster behind the mark is not found.
-/

namespace NexOS.Fat32.Geometry

variable {g : Geometry} {d : Disk} {cluster : Nat}

/-- The values that the format knows: free, a next cluster, bad, and the end of a chain. -/
def LegalValue (g : Geometry) (value : Nat) : Prop :=
  value = 0 ∨ g.clusterIsData value = true ∨ value = clusterBad ∨ clusterEnd ≤ value

/-- The value of a cluster in the first table. The upper four bits do not count. -/
def fatValue (disk : Disk) (cluster : Nat) : Nat := disk.fat 0 cluster % 2 ^ 28

/-- Every entry of the table has a value that FAT32 knows. -/
def LegalTable (g : Geometry) (disk : Disk) : Prop :=
  ∀ cluster, g.clusterIsData cluster = true → g.LegalValue (fatValue disk cluster)

/-- The entry of the cluster is zero. -/
def IsFree (g : Geometry) (disk : Disk) (cluster : Nat) : Prop :=
  g.clusterIsData cluster = true ∧ fatValue disk cluster = 0

/-- The cluster is marked as bad. -/
def IsBad (g : Geometry) (disk : Disk) (cluster : Nat) : Prop :=
  g.clusterIsData cluster = true ∧ fatValue disk cluster = clusterBad

/-- The lowest free cluster is marked as the end of a chain in all tables, nothing else
in the tables changes, and there is no result only if no cluster is free. -/
def AllocatesLowest (g : Geometry) (disk : Disk) : Option (Nat × Disk) → Prop
  | none => ∀ c, ¬ g.IsFree disk c
  | some (new, disk') =>
    g.IsFree disk new ∧ (∀ c < new, ¬ g.IsFree disk c) ∧
      (∀ table < g.tableCount, disk'.fat table new % 2 ^ 28 = clusterEnd) ∧
      ∀ table c, c ≠ new → disk'.fat table c = disk.fat table c

/-! ## The scan -/

lemma nextCluster_of_isBad (hbad : g.IsBad d cluster) : g.nextCluster d cluster = none := by
  apply nextCluster_of_bad
  rw [link, if_pos hbad.1, show d.fat 0 cluster % 2 ^ 28 = clusterBad from hbad.2]
  rfl

lemma nextCluster_of_legal (hdata : g.clusterIsData cluster = true)
    (hlegal : g.LegalValue (fatValue d cluster)) (hbad : ¬ g.IsBad d cluster) :
    g.nextCluster d cluster = some (fatValue d cluster) := by
  rw [nextCluster_of_isData hdata]
  refine if_neg ?_
  rintro ⟨hne, hlt, hnot⟩
  rcases hlegal with hzero | hnext | hmark | hend
  · exact hne hzero
  · exact absurd hnext (by simpa [fatValue] using hnot)
  · exact hbad ⟨hdata, hmark⟩
  · exact absurd hend (Nat.not_le_of_lt hlt)

/-- The disk after the allocation of a cluster. -/
def marked (g : Geometry) (disk : Disk) (cluster : Nat) : Disk :=
  zeroCluster { disk with fat := g.setEntry disk.fat cluster clusterEnd } cluster

/-- How a scan from a cluster on ends: at the first free cluster, behind the last
cluster, or at a bad one. -/
inductive Scanned (g : Geometry) (disk : Disk) (cluster : Nat) : Option (Nat × Disk) → Prop
  | found (new : Nat) (hfree : g.IsFree disk new)
      (hpassed : ∀ c, cluster ≤ c → c < new → ¬ g.IsFree disk c ∧ ¬ g.IsBad disk c) :
      Scanned g disk cluster (some (new, g.marked disk new))
  | full (hpassed : ∀ c, cluster ≤ c → ¬ g.IsFree disk c) : Scanned g disk cluster none
  | stopped (bad : Nat) (hbad : g.IsBad disk bad)
      (hpassed : ∀ c, cluster ≤ c → c ≤ bad → ¬ g.IsFree disk c) : Scanned g disk cluster none

/-- A cluster that is neither free nor bad is passed. -/
lemma Scanned.pass {result : Option (Nat × Disk)} (hscanned : Scanned g d (cluster + 1) result)
    (hfree : ¬ g.IsFree d cluster) (hbad : ¬ g.IsBad d cluster) :
    Scanned g d cluster result := by
  have hcases : ∀ c, cluster ≤ c → c = cluster ∨ cluster + 1 ≤ c := fun c hc => by omega
  cases hscanned with
  | found new hnew hpass =>
    refine .found new hnew fun c hc hlt => ?_
    rcases hcases c hc with rfl | hc
    · exact ⟨hfree, hbad⟩
    · exact hpass c hc hlt
  | full hpass =>
    refine .full fun c hc => ?_
    rcases hcases c hc with rfl | hc
    · exact hfree
    · exact hpass c hc
  | stopped bad hmark hpass =>
    refine .stopped bad hmark fun c hc hle => ?_
    rcases hcases c hc with rfl | hc
    · exact hfree
    · exact hpass c hc hle

lemma scanned_allocFrom (hlegal : g.LegalTable d) (rest cluster : Nat) (hlow : 2 ≤ cluster)
    (hrest : cluster + rest = g.clusterCount + 2) :
    Scanned g d cluster (g.allocFrom d cluster rest) := by
  induction rest generalizing cluster with
  | zero =>
    refine .full fun c hc hfree => ?_
    have hrange := clusterIsData_iff.mp hfree.1
    omega
  | succ rest ih =>
    have hdata : g.clusterIsData cluster = true := clusterIsData_iff.mpr ⟨hlow, by omega⟩
    unfold allocFrom
    by_cases hbad : g.IsBad d cluster
    · rw [nextCluster_of_isBad hbad]
      refine .stopped cluster hbad fun c hc hle hfree => ?_
      obtain rfl : c = cluster := Nat.le_antisymm hle hc
      exact absurd (hfree.2.symm.trans hbad.2) (by decide)
    · rw [nextCluster_of_legal hdata (hlegal cluster hdata) hbad]
      dsimp only
      by_cases hvalue : fatValue d cluster = 0
      · rw [if_neg (not_not_intro hvalue), writeFatEntry_of_isData hdata (.inr (.inl le_rfl))]
        exact .found cluster ⟨hdata, hvalue⟩ fun c hc hlt => absurd hlt (Nat.not_lt_of_le hc)
      · rw [if_pos hvalue]
        exact (ih (cluster + 1) (by omega) (by omega)).pass (fun hfree => hvalue hfree.2) hbad

/-! ## The law -/

lemma marked_fat_self {table : Nat} (htable : table < g.tableCount) :
    (g.marked d cluster).fat table cluster % 2 ^ 28 = clusterEnd := by
  have hvalue : (g.marked d cluster).fat table cluster =
      d.fat table cluster / 2 ^ 28 * 2 ^ 28 + clusterEnd % 2 ^ 28 := if_pos ⟨htable, rfl⟩
  rw [hvalue]
  unfold clusterEnd
  omega

lemma marked_fat_of_ne {table c : Nat} (hne : c ≠ cluster) :
    (g.marked d cluster).fat table c = d.fat table c :=
  if_neg fun h => hne h.2

/-- A bad cluster is not among those that a scan passed, and it is not the one it found. -/
lemma lt_of_isBad {new bad : Nat} (hfree : g.IsFree d new)
    (hpassed : ∀ c, 2 ≤ c → c < new → ¬ g.IsFree d c ∧ ¬ g.IsBad d c) (hbad : g.IsBad d bad) :
    new < bad := by
  by_contra hle
  rcases Nat.lt_or_eq_of_le (Nat.le_of_not_lt hle) with hlt | rfl
  · exact (hpassed bad (clusterIsData_iff.mp hbad.1).1 hlt).2 hbad
  · exact absurd (hfree.2.symm.trans hbad.2) (by decide)

/-- On a table of legal values, allocation takes the lowest free cluster and fails only
if there is none, exactly if no bad cluster lies before all free ones. -/
theorem allocCluster_lowest_iff (g : Geometry) (disk : Disk) (hlegal : g.LegalTable disk) :
    g.AllocatesLowest disk (g.allocCluster disk) ↔
      ∀ free bad, g.IsFree disk free → g.IsBad disk bad → ∃ c < bad, g.IsFree disk c := by
  have hscanned := scanned_allocFrom hlegal g.clusterCount 2 le_rfl (Nat.add_comm _ _)
  have hlow : ∀ {c}, g.IsFree disk c → 2 ≤ c := fun hfree => (clusterIsData_iff.mp hfree.1).1
  rw [allocCluster]
  generalize g.allocFrom disk 2 g.clusterCount = result at hscanned ⊢
  cases hscanned with
  | found new hfree hpass =>
    refine iff_of_true ⟨hfree, fun c hc hother => (hpass c (hlow hother) hc).1 hother,
      fun table htable => marked_fat_self htable, fun table c hne => marked_fat_of_ne hne⟩ ?_
    exact fun _ bad _ hbad => ⟨new, lt_of_isBad hfree hpass hbad, hfree⟩
  | full hpass =>
    have hnone : ∀ c, ¬ g.IsFree disk c := fun c hfree => hpass c (hlow hfree) hfree
    exact iff_of_true hnone fun free _ hfree => absurd hfree (hnone free)
  | stopped bad hbad hpass =>
    constructor
    · intro hnone free _ hfree
      exact absurd hfree (hnone free)
    · intro hbefore free hfree
      obtain ⟨c, hc, hother⟩ := hbefore free bad hfree hbad
      exact hpass c (hlow hother) hc.le hother

/-- A volume whose cluster 7 is bad. -/
def worn : Disk where
  fat _ cluster := if cluster = 2 then clusterEnd else if cluster = 7 then clusterBad else 0
  data _ _ := 0

lemma legalTable_of_range (hall : ∀ c ∈ List.range' 2 g.clusterCount, g.LegalValue (fatValue d c)) :
    g.LegalTable d := by
  intro c hdata
  have hrange := clusterIsData_iff.mp hdata
  exact hall c (List.mem_range'_1.mpr ⟨hrange.1, by omega⟩)

instance (g : Geometry) (value : Nat) : Decidable (g.LegalValue value) := by
  unfold LegalValue; infer_instance

/-- A bad cluster above the free one does no harm. -/
theorem allocCluster_worn : small.AllocatesLowest worn (small.allocCluster worn) := by
  refine (allocCluster_lowest_iff small worn (legalTable_of_range (by decide))).mpr ?_
  intro _ bad _ hbad
  have hbad' : bad = 7 := by
    have hvalue : (if bad = 2 then clusterEnd else if bad = 7 then clusterBad else 0) % 2 ^ 28 =
        clusterBad := hbad.2
    split_ifs at hvalue with htwo hseven
    · exact absurd hvalue (by decide)
    · exact hseven
    · exact absurd hvalue (by decide)
  exact ⟨3, by omega, by decide, by decide⟩

/-- A volume whose cluster 3 is bad, below the free ones. -/
def wornEarly : Disk where
  fat _ cluster := if cluster = 2 then clusterEnd else if cluster = 3 then clusterBad else 0
  data _ _ := 0

/-- Four clusters are free, and none is allocated. -/
theorem allocCluster_wornEarly : small.LegalTable wornEarly ∧ small.allocCluster wornEarly = none ∧
      small.IsFree wornEarly 4 ∧
        ¬ small.AllocatesLowest wornEarly (small.allocCluster wornEarly) := by
  have hnone : small.allocCluster wornEarly = none := by decide
  have hfree : small.IsFree wornEarly 4 := ⟨by decide, by decide⟩
  refine ⟨legalTable_of_range (by decide), hnone, hfree, ?_⟩
  exact fun hfull => hfull 4 hfree

end NexOS.Fat32.Geometry
