import NexOS.Fat32.Mount
import NexOS.Fat32.Reading

/-! # Volumes on a device

A mounted volume of a legal size is a volume as the rest of the development sees it, with
clusters and tables in place of sectors. Following a chain and reading a row of sectors
on the device give what they give on the volume.
-/

namespace NexOS.Fat32

/-- The bytes of the sectors. -/
abbrev Sectors : Type := Nat → Nat → UInt8

/-- A number of 32 bits, low byte first. -/
def wordAt (bytes : Nat → UInt8) (offset : Nat) : Nat :=
  (bytes offset).toNat + 256 * (bytes (offset + 1)).toNat + 65536 * (bytes (offset + 2)).toNat +
    16777216 * (bytes (offset + 3)).toNat

namespace Volume

variable (vol : Volume)

/-- `fat32_read_sectors` on a device whose reads succeed. -/
def readSectors (dev : Sectors) (lba count : Nat) : Option (List UInt8) :=
  if count = 0 ∨ vol.lbaInVolume lba = false ∨ 0xffffffff < lba + count - 1 ∨
      vol.lbaInVolume (lba + count - 1) = false then none
  else some ((List.range (512 * count)).map fun k => dev (lba + k / 512) (k % 512))

/-- `fat32_next_cluster`, without the sector that it keeps. -/
def nextCluster (dev : Sectors) (cluster : Nat) : Option Nat :=
  if vol.clusterIsData cluster = false then none
  else
    match vol.readSectors dev (vol.fatSector 0 cluster) 1 with
    | none => none
    | some bytes =>
      let next := wordAt (fun k => bytes.getD k 0) (4 * fatIndex cluster) % 2 ^ 28
      if next ≠ 0 ∧ next < clusterEnd ∧ vol.clusterIsData next = false then none else some next

/-- The tables and clusters on a device, at the places where the format has them: entries of
four bytes, one after the other, and clusters of sectors behind the tables. -/
def disk (dev : Sectors) : Disk where
  fat table cluster :=
    wordAt (dev (vol.fatStartLba + table * vol.sectorsPerFat + cluster * 4 / 512))
      (cluster * 4 % 512)
  data cluster b :=
    dev (vol.dataStartLba + (cluster - 2) * vol.sectorsPerCluster + b / 512) (b % 512)

end Volume

namespace Accepted

variable {sector : BootSector} {vol : Volume} {dev : Sectors} {cluster : Nat}

lemma rootCluster_data (hacc : Accepted sector vol) :
    2 ≤ vol.rootCluster ∧ vol.rootCluster < vol.clusterCount + 2 := by
  have hroot := hacc.root_data
  simp only [Volume.clusterIsData, isDataCluster, decide_eq_true_eq] at hroot
  omega

/-- The geometry of a mounted volume whose cluster numbers are no marks. -/
def geometry (hacc : Accepted sector vol) (hcount : vol.clusterCount ≤ 0x0ffffff5) : Geometry where
  clusterCount := vol.clusterCount
  tableCount := vol.tableCount
  sectorsPerCluster := vol.sectorsPerCluster
  rootCluster := vol.rootCluster
  tables_pos := hacc.tables_pos
  sectors_pos := hacc.sectors_pos
  count_le := hcount
  root_data := hacc.rootCluster_data

/-- A device of one table and single clusters that are chained in a row, with bytes of their own. -/
def rowSectors : Sectors := fun lba k =>
  if lba = 1 then if k % 4 = 0 then UInt8.ofNat (k / 4 + 1) else 0 else UInt8.ofNat (7 * lba + k)

lemma plain : Accepted (plainSector 100 1) (plainVolume 100 1) :=
  @accepted_of_mount (plainDevice 100 1) 0 _ _ rfl (by decide +kernel)

variable (hacc : Accepted sector vol)

include hacc

variable (hcount : vol.clusterCount ≤ 0x0ffffff5)

include hcount

lemma clusterIsData_geometry :
    (hacc.geometry hcount).clusterIsData cluster = vol.clusterIsData cluster := by
  have hrange : (2 ≤ cluster ∧ cluster < vol.clusterCount + 2) ↔
      (2 ≤ cluster ∧ cluster - 2 < vol.clusterCount) := by omega
  simp only [Geometry.clusterIsData, geometry, Volume.clusterIsData, isDataCluster, hrange]

/-- Chains on the device are the chains of the volume: no address of an entry wraps around. -/
theorem nextCluster_eq :
    vol.nextCluster dev cluster = (hacc.geometry hcount).nextCluster (vol.disk dev) cluster := by
  have hdata := fun c => @clusterIsData_geometry sector vol c hacc hcount
  unfold Volume.nextCluster Geometry.nextCluster
  simp only [hdata]
  rcases hclus : vol.clusterIsData cluster with _ | _
  · rfl
  obtain ⟨hsector, hindex, -, -, hins⟩ := hacc.entryInside hclus hcount 0 hacc.tables_pos
  have hlba : vol.fatSector 0 cluster < 2 ^ 32 := Nat.mod_lt _ (Nat.two_pow_pos 32)
  obtain ⟨bytes, hread, hbyte⟩ : ∃ bytes, vol.readSectors dev (vol.fatSector 0 cluster) 1 =
      some bytes ∧ ∀ k < 512, bytes.getD k 0 = dev (vol.fatSector 0 cluster) k := by
    refine ⟨_, if_neg ?_, fun k hk => ?_⟩
    · simp only [Nat.add_sub_cancel, hins, Bool.true_eq_false, or_false, false_or]
      omega
    · simp [hk, Nat.div_eq_of_lt hk, Nat.mod_eq_of_lt hk]
  have hword : wordAt (fun k => bytes.getD k 0) (4 * Volume.fatIndex cluster) =
      (vol.disk dev).fat 0 cluster := by
    have hplace : cluster * 4 % 512 = 4 * Volume.fatIndex cluster := by omega
    simp only [wordAt, Volume.disk]
    rw [hbyte _ (by omega), hbyte _ (by omega), hbyte _ (by omega), hbyte _ (by omega), hsector,
      hplace]
  rw [hread]
  simp only [hword]

omit hacc hcount in
/-- Cluster 90 is followed by 91 on the device. -/
theorem nextCluster_plain : (plainVolume 100 1).nextCluster rowSectors 90 = some 91 ∧
    ∃ hcount, (plainVolume 100 1).nextCluster rowSectors 90 =
      (plain.geometry hcount).nextCluster ((plainVolume 100 1).disk rowSectors) 90 :=
  ⟨by decide +kernel, by decide, plain.nextCluster_eq _⟩

/-- A row of sectors that lies in clusters is the row of bytes of these clusters. -/
theorem readSectors_eq
    (hdata : vol.clusterIsData cluster = true) {sec count : Nat}
    (hsec : sec < vol.sectorsPerCluster) (hpos : count ≠ 0)
    (hrow : (cluster - 2) * vol.sectorsPerCluster + sec + count ≤
      vol.clusterCount * vol.sectorsPerCluster) :
    vol.readSectors dev (u32 (vol.clusterLba cluster + sec)) count =
      some ((hacc.geometry hcount).readSectors (vol.disk dev) cluster sec count) := by
  have hdataStart := hacc.data_start
  have hfat := hacc.fat_start
  have hend := hacc.data_end
  have hle := hacc.end_le
  have hspc := hacc.sectors_pos
  rw [hacc.clusterLba_add hdata hsec, Volume.readSectors, if_neg]
  · refine congrArg some (List.map_congr_left fun k hk => ?_)
    rw [List.mem_range] at hk
    set row := (cluster - 2) * vol.sectorsPerCluster + sec + k / 512 with hrowAt
    -- the place as a number of sectors and a number of bytes
    have hplace : (cluster - 2) * (hacc.geometry hcount).clusterSize + 512 * sec + k =
        512 * row + k % 512 := by
      have hlinear : (cluster - 2) * (hacc.geometry hcount).clusterSize =
          (cluster - 2) * vol.sectorsPerCluster * 512 := (Nat.mul_assoc _ _ _).symm
      omega
    have hsize : (hacc.geometry hcount).clusterSize = 512 * vol.sectorsPerCluster :=
      Nat.mul_comm _ _
    have hsum := Nat.div_add_mod' row vol.sectorsPerCluster
    simp only [hplace, Volume.disk]
    rw [hsize, ← Nat.div_div_eq_div_mul, Nat.mod_mul_right_div_self, Nat.mod_mul_right_mod,
      show (512 * row + k % 512) / 512 = row by omega, Nat.add_sub_cancel_left]
    congr 1 <;> omega
  · simp only [Volume.lbaInVolume, decide_eq_false_iff_not]
    omega

omit hacc hcount in
/-- Five sectors of a row of clusters. -/
theorem readSectors_plain : ∃ hcount,
    (plainVolume 100 1).readSectors rowSectors (u32 ((plainVolume 100 1).clusterLba 3 + 0)) 5 =
      some ((plain.geometry hcount).readSectors ((plainVolume 100 1).disk rowSectors) 3 0 5) :=
  ⟨by decide, plain.readSectors_eq _ (by decide) (by decide) (by decide) (by decide)⟩

end Accepted

end NexOS.Fat32
