import NexOS.Fat32.VolumeAllocation

/-! # Mounting a volume

The first sector of a partition describes a volume: how many sectors it has, where its
tables lie and how large its clusters are. Mounting checks the description and computes
from it where a cluster and its entry in a table are found on the device. All of this is
arithmetic in 32-bit registers on numbers that the sector is free to choose.
-/

namespace NexOS.Fat32

open Nat

/-- Arithmetic of 32 bits. -/
def u32 (value : Nat) : Nat := value % 2 ^ 32

lemma u32_of_lt {value : Nat} (hlt : value < 2 ^ 32) : u32 value = value := mod_eq_of_lt hlt

/-! ## The boot sector -/

/-- The first sector of a volume. -/
structure BootSector where
  bytes : Nat → UInt8

namespace BootSector

variable (sector : BootSector)

/-- A field of 16 bits. -/
def half (offset : Nat) : Nat :=
  (sector.bytes offset).toNat + 256 * (sector.bytes (offset + 1)).toNat

/-- A field of 32 bits. -/
def full (offset : Nat) : Nat := sector.half offset + 65536 * sector.half (offset + 2)

def jump : Nat := (sector.bytes 0).toNat

def bytesPerSector : Nat := sector.half 11

def sectorsPerCluster : Nat := (sector.bytes 13).toNat

def reservedSectorCount : Nat := sector.half 14

def tableCount : Nat := (sector.bytes 16).toNat

def rootEntryCount : Nat := sector.half 17

def totalSectors16 : Nat := sector.half 19

def tableSize16 : Nat := sector.half 22

def totalSectors32 : Nat := sector.full 32

def tableSize32 : Nat := sector.full 36

def rootCluster : Nat := sector.full 44

/-- The field of 16 bits goes before that of 32 bits. -/
def totalSectors : Nat :=
  if sector.totalSectors16 ≠ 0 then sector.totalSectors16 else sector.totalSectors32

/-- The sectors before the data area. -/
def fatRegionSectors : Nat := sector.reservedSectorCount + sector.tableCount * sector.tableSize32

/-- How many clusters the sector describes, without any register. -/
def clusters : Nat := (sector.totalSectors - sector.fatRegionSectors) / sector.sectorsPerCluster

lemma full_lt (off : Nat) : sector.full off < 2 ^ 32 := by
  have hbyte := fun k => (sector.bytes k).toNat_lt
  have h0 := hbyte off
  have h1 := hbyte (off + 1)
  have h2 := hbyte (off + 2)
  have h3 := hbyte (off + 2 + 1)
  unfold full half
  omega

lemma totalSectors_lt : sector.totalSectors < 2 ^ 32 := by
  have hbyte := fun k => (sector.bytes k).toNat_lt
  have h0 := hbyte 19
  have h1 := hbyte (19 + 1)
  have hfull := sector.full_lt 32
  unfold totalSectors totalSectors16 totalSectors32 half
  split <;> omega

end BootSector

/-! ## Mounting -/

/-- A device as mounting sees it. A sector may be unreadable. -/
structure BlockDevice where
  blockSize : Nat
  blockCount : Nat
  readSector : Nat → Option BootSector

/-- The geometry in `struct fat32_volume`. -/
structure Volume where
  partitionLba : Nat
  fatStartLba : Nat
  dataStartLba : Nat
  sectorsPerCluster : Nat
  sectorsPerFat : Nat
  rootCluster : Nat
  totalSectors : Nat
  clusterCount : Nat
  tableCount : Nat
  deriving DecidableEq

def isPowerOfTwo (value : Nat) : Bool := value ≠ 0 ∧ value &&& (value - 1) = 0

/-- `fat32_cluster_is_data`, on the number of clusters of a volume. -/
def isDataCluster (clusterCount cluster : Nat) : Bool := 2 ≤ cluster ∧ cluster - 2 < clusterCount

/-- The checks on single fields. -/
def BootSector.isRefused (sector : BootSector) : Bool :=
  sector.bytesPerSector ≠ 512 ∨ isPowerOfTwo sector.sectorsPerCluster = false ∨
    128 < sector.sectorsPerCluster ∨ sector.reservedSectorCount = 0 ∨ sector.tableCount = 0 ∨
    2 < sector.tableCount ∨ sector.rootEntryCount ≠ 0 ∨ sector.tableSize16 ≠ 0 ∨
      sector.tableSize32 = 0

/-- `data_sectors / sectors_per_cluster` in `fat32_mount`. -/
def BootSector.mountedClusters (sector : BootSector) : Nat :=
  u32 (sector.totalSectors + 2 ^ 32 - u32 sector.fatRegionSectors) / sector.sectorsPerCluster

/-- The volume that the boot sector describes, if the checks pass. -/
def mount (dev : BlockDevice) (partitionLba : Nat) : Option Volume :=
  if dev.blockSize ≠ 512 ∨ dev.blockCount = 0 ∨ dev.blockCount ≤ partitionLba then none
  else
    match dev.readSector partitionLba with
    | none => none
    | some sector =>
      if sector.bytes 510 ≠ 0x55 ∨ sector.bytes 511 ≠ 0xaa then none
      else if sector.jump ≠ 0xeb ∧ sector.jump ≠ 0xe9 then none
      else if sector.isRefused then none
      else if sector.totalSectors = 0 ∨ dev.blockCount - partitionLba < sector.totalSectors ∨
          sector.totalSectors ≤ sector.fatRegionSectors ∨
          2 ^ 32 < partitionLba + sector.totalSectors then none
      else if sector.mountedClusters = 0 ∨
        sector.tableSize32 * 128 < sector.mountedClusters + 2 then
        none
      else if isDataCluster sector.mountedClusters sector.rootCluster = false then none
      else
        some
          { partitionLba := partitionLba
            fatStartLba := u32 (partitionLba + sector.reservedSectorCount)
            dataStartLba := u32 (partitionLba + u32 sector.fatRegionSectors)
            sectorsPerCluster := sector.sectorsPerCluster
            sectorsPerFat := sector.tableSize32
            rootCluster := sector.rootCluster
            totalSectors := sector.totalSectors
            clusterCount := sector.mountedClusters
            tableCount := sector.tableCount }

/-! ## Places on the device -/

namespace Volume

variable (vol : Volume)

def clusterIsData (cluster : Nat) : Bool := isDataCluster vol.clusterCount cluster

/-- `fat32_lba_in_volume`, which computes in 64 bits. -/
def lbaInVolume (lba : Nat) : Bool :=
  vol.totalSectors ≠ 0 ∧ vol.partitionLba ≤ lba ∧ lba < vol.partitionLba + vol.totalSectors

/-- The first sector of a cluster. -/
def clusterLba (cluster : Nat) : Nat :=
  u32 (vol.dataStartLba + u32 (u32 (cluster + 2 ^ 32 - 2) * vol.sectorsPerCluster))

/-- `fat_offset` in `fat32_next_cluster` and `fat32_write_fat_entry`. -/
def fatOffset (cluster : Nat) : Nat := u32 (cluster * 4)

/-- The sector with a cluster's entry in a table. -/
def fatSector (table cluster : Nat) : Nat :=
  u32 (vol.fatStartLba + u32 (table * vol.sectorsPerFat) + fatOffset cluster / 512)

/-- The place of the entry in its sector, in entries. -/
def fatIndex (cluster : Nat) : Nat := fatOffset cluster % 512 / 4

/-- The sectors of the cluster are the ones meant, and they lie in the volume. -/
def SectorsInside (cluster : Nat) : Prop := ∀ sec < vol.sectorsPerCluster,
    u32 (vol.clusterLba cluster + sec) =
        vol.dataStartLba + (cluster - 2) * vol.sectorsPerCluster + sec ∧
      vol.lbaInVolume (u32 (vol.clusterLba cluster + sec)) = true

/-- The entry of the cluster is the one meant, and each table has it in its own part of
the area between the reserved sectors and the first cluster. -/
def EntryInside (cluster : Nat) : Prop := ∀ table < vol.tableCount,
    vol.fatSector table cluster = vol.fatStartLba + table * vol.sectorsPerFat + cluster * 4 / 512 ∧
      fatIndex cluster = cluster % 128 ∧
      vol.fatSector table cluster < vol.fatStartLba + (table + 1) * vol.sectorsPerFat ∧
      vol.fatSector table cluster < vol.dataStartLba ∧
      vol.lbaInVolume (vol.fatSector table cluster) = true

/-- The number of the cluster is no mark of the table. -/
def NotMark (cluster : Nat) : Prop :=
  cluster ≠ clusterBad ∧ ∀ mark, clusterEnd ≤ mark → mark < 2 ^ 28 → cluster ≠ mark

/-- Every cluster has sectors and an entry of its own, and no register wraps. -/
structure ValidGeometry : Prop where
  bound_exact : u32 (vol.clusterCount + 2) = vol.clusterCount + 2
  sectors_inside : ∀ c, vol.clusterIsData c = true → vol.SectorsInside c
  entry_inside : ∀ c, vol.clusterIsData c = true → vol.EntryInside c
  not_mark : ∀ c, vol.clusterIsData c = true → NotMark c
  disjoint : ∀ c c', vol.clusterIsData c = true → vol.clusterIsData c' = true → c ≠ c' →
    ∀ sec < vol.sectorsPerCluster, ∀ sec' < vol.sectorsPerCluster,
      u32 (vol.clusterLba c + sec) ≠ u32 (vol.clusterLba c' + sec')

end Volume

/-! ## What mounting accepts -/

/-- The relations between the numbers of a mounted volume. -/
structure Accepted (sector : BootSector) (vol : Volume) : Prop where
  clusters_eq : vol.clusterCount = sector.clusters
  data_start : vol.dataStartLba = vol.fatStartLba + vol.tableCount * vol.sectorsPerFat
  fat_start : vol.partitionLba ≤ vol.fatStartLba
  data_end : vol.dataStartLba + vol.clusterCount * vol.sectorsPerCluster ≤
    vol.partitionLba + vol.totalSectors
  end_le : vol.partitionLba + vol.totalSectors ≤ 2 ^ 32
  table_covers : vol.clusterCount + 2 ≤ vol.sectorsPerFat * 128
  tables_pos : 0 < vol.tableCount
  sectors_pos : 0 < vol.sectorsPerCluster
  root_data : vol.clusterIsData vol.rootCluster = true

lemma accepted_of_mount {dev : BlockDevice} {lba : Nat} {sector : BootSector} {vol : Volume}
    (hread : dev.readSector lba = some sector) (hmount : mount dev lba = some vol) :
    Accepted sector vol := by
  unfold mount at hmount
  rw [hread] at hmount
  dsimp only at hmount
  split_ifs at hmount with hdev hsignature hjump hrefuse hgeometry hcluss hroot
  obtain rfl := Option.some.inj hmount
  simp only [BootSector.isRefused, decide_eq_true_eq, not_or, not_lt] at hrefuse
  obtain ⟨-, hpower, -, -, htables, -, -, -, hsize⟩ := hrefuse
  simp only [not_or, not_le, not_lt] at hgeometry hcluss
  obtain ⟨-, -, hregion, hend⟩ := hgeometry
  have hspc : 0 < sector.sectorsPerCluster := by
    refine pos_of_ne_zero fun hzero => hpower ?_
    rw [hzero]
    rfl
  have htotal := sector.totalSectors_lt
  have hregion32 : u32 sector.fatRegionSectors = sector.fatRegionSectors := u32_of_lt (by omega)
  have hcount : sector.mountedClusters = sector.clusters := by
    rw [BootSector.mountedClusters, BootSector.clusters, hregion32]
    congr 1
    unfold u32
    omega
  have hdata : sector.clusters * sector.sectorsPerCluster ≤
      sector.totalSectors - sector.fatRegionSectors := div_mul_le_self _ _
  have hregion_eq : sector.fatRegionSectors =
      sector.reservedSectorCount + sector.tableCount * sector.tableSize32 := rfl
  have hfat : u32 (lba + sector.reservedSectorCount) = lba + sector.reservedSectorCount :=
    u32_of_lt (by omega)
  have hstart : u32 (lba + u32 sector.fatRegionSectors) = lba + sector.fatRegionSectors := by
    rw [hregion32]
    exact u32_of_lt (by omega)
  refine ⟨hcount, ?_, ?_, ?_, hend, hcluss.2, pos_of_ne_zero htables, hspc, ?_⟩
  · dsimp only
    rw [hstart, hfat]
    omega
  · dsimp only
    rw [hfat]
    omega
  · dsimp only
    rw [hstart, hcount]
    omega
  · simpa [Volume.clusterIsData] using hroot

namespace Accepted

variable {sector : BootSector} {vol : Volume} {cluster : Nat} (hacc : Accepted sector vol)
  (hdata : vol.clusterIsData cluster = true) {sec : Nat}

include hdata in
lemma sectors_lt (hsec : sec < vol.sectorsPerCluster) :
    (cluster - 2) * vol.sectorsPerCluster + sec < vol.clusterCount * vol.sectorsPerCluster := by
  simp only [Volume.clusterIsData, isDataCluster, decide_eq_true_eq] at hdata
  calc (cluster - 2) * vol.sectorsPerCluster + sec
      < (cluster - 2 + 1) * vol.sectorsPerCluster := by rw [add_one_mul]; omega
    _ ≤ vol.clusterCount * vol.sectorsPerCluster := mul_le_mul_right _ hdata.2

include hacc

/-- There are not more clusters than sectors. -/
lemma count_le : vol.clusterCount ≤ vol.clusterCount * vol.sectorsPerCluster :=
  Nat.le_mul_of_pos_right _ hacc.sectors_pos

include hdata

lemma clusterLba_add (hsec : sec < vol.sectorsPerCluster) : u32 (vol.clusterLba cluster + sec) =
      vol.dataStartLba + (cluster - 2) * vol.sectorsPerCluster + sec := by
  have hlt := sectors_lt hdata hsec
  have hcount := hacc.count_le
  have hend := hacc.data_end
  have hle := hacc.end_le
  simp only [Volume.clusterIsData, isDataCluster, decide_eq_true_eq] at hdata
  have hminus : u32 (cluster + 2 ^ 32 - 2) = cluster - 2 := by
    unfold u32
    omega
  rw [Volume.clusterLba, hminus, @u32_of_lt ((cluster - 2) * vol.sectorsPerCluster) (by omega),
    @u32_of_lt (vol.dataStartLba + _) (by omega)]
  exact u32_of_lt (by omega)

lemma sectorsInside : vol.SectorsInside cluster := by
  intro sec hsec
  have hlt := sectors_lt hdata hsec
  have hend := hacc.data_end
  have hstart := hacc.data_start
  have hfat := hacc.fat_start
  rw [hacc.clusterLba_add hdata hsec, Volume.lbaInVolume, decide_eq_true_eq]
  omega

omit hdata

lemma disjoint {c c' : Nat} (hdata : vol.clusterIsData c = true)
    (hdata' : vol.clusterIsData c' = true) (hne : c ≠ c') {sec' : Nat}
    (hsec : sec < vol.sectorsPerCluster) (hsec' : sec' < vol.sectorsPerCluster) :
    u32 (vol.clusterLba c + sec) ≠ u32 (vol.clusterLba c' + sec') := by
  rw [hacc.clusterLba_add hdata hsec, hacc.clusterLba_add hdata' hsec']
  simp only [Volume.clusterIsData, isDataCluster, decide_eq_true_eq] at hdata hdata'
  intro heq
  have hplace :
      sec + (c - 2) * vol.sectorsPerCluster = sec' + (c' - 2) * vol.sectorsPerCluster := by
    omega
  have hdiv := congrArg (· / vol.sectorsPerCluster) hplace
  simp only [add_mul_div_right _ _ hacc.sectors_pos, div_eq_of_lt hsec, div_eq_of_lt hsec'] at hdiv
  omega

include hdata in
/-- The offset of an entry wraps only for clusters whose numbers are marks or above them. -/
lemma entryInside (hcount : vol.clusterCount ≤ 0x0ffffff5) : vol.EntryInside cluster := by
  intro table htable
  simp only [Volume.clusterIsData, isDataCluster, decide_eq_true_eq] at hdata
  have hcovers := hacc.table_covers
  have hfat := hacc.fat_start
  have hstart := hacc.data_start
  have hend := hacc.data_end
  have hle := hacc.end_le
  have htables : (table + 1) * vol.sectorsPerFat ≤ vol.tableCount * vol.sectorsPerFat :=
    mul_le_mul_right _ htable
  rw [add_one_mul] at htables
  have hoff : Volume.fatOffset cluster = cluster * 4 := u32_of_lt (by omega)
  have hsec : vol.fatSector table cluster =
      vol.fatStartLba + table * vol.sectorsPerFat + cluster * 4 / 512 := by
    rw [Volume.fatSector, hoff, @u32_of_lt (table * vol.sectorsPerFat) (by omega)]
    exact u32_of_lt (by omega)
  rw [hsec, add_one_mul, Volume.fatIndex, Volume.lbaInVolume, decide_eq_true_eq]
  refine ⟨rfl, ?_, ?_, ?_, ?_⟩ <;> omega

end Accepted

/-- The geometry of a mounted volume is valid exactly if the boot sector describes at most
`0x0ffffff5` clusters, so that no cluster has the number of a mark. -/
theorem mount_validGeometry_iff {dev : BlockDevice} {lba : Nat} {sector : BootSector} {vol : Volume}
    (hread : dev.readSector lba = some sector) (hmount : mount dev lba = some vol) :
    vol.ValidGeometry ↔ sector.clusters ≤ 0x0ffffff5 := by
  have hacc := accepted_of_mount hread hmount
  rw [← hacc.clusters_eq]
  constructor
  · intro hvalid
    by_contra hmany
    -- the cluster that has the number of the bad mark
    have hdata : vol.clusterIsData clusterBad = true := by
      rw [Volume.clusterIsData, isDataCluster, decide_eq_true_eq]
      unfold clusterBad
      omega
    exact (hvalid.not_mark clusterBad hdata).1 rfl
  · intro hcount
    refine ⟨u32_of_lt (by omega), fun c => hacc.sectorsInside,
      fun c hdata => hacc.entryInside hdata hcount, ?_,
      fun c c' hdata hdata' hne sec hsec sec' hsec' =>
        hacc.disjoint hdata hdata' hne hsec hsec'⟩
    intro c hdata
    simp only [Volume.clusterIsData, isDataCluster, decide_eq_true_eq] at hdata
    unfold Volume.NotMark clusterBad clusterEnd
    exact ⟨by omega, fun mark hmark _ => by omega⟩

/-- A boot sector with one table and clusters of one sector. -/
def plainSector (total tableSize : Nat) : BootSector where
  bytes k :=
    if k = 0 then 0xeb
    else if k = 12 then 2
    else if k = 13 ∨ k = 14 ∨ k = 16 then 1
    else if 32 ≤ k ∧ k < 36 then UInt8.ofNat (total / 256 ^ (k - 32))
    else if 36 ≤ k ∧ k < 40 then UInt8.ofNat (tableSize / 256 ^ (k - 36))
    else if k = 44 then 2
    else if k = 510 then 0x55
    else if k = 511 then 0xaa
    else 0

def plainDevice (total tableSize : Nat) : BlockDevice where
  blockSize := 512
  blockCount := total
  readSector _ := some (plainSector total tableSize)

def plainVolume (total tableSize : Nat) : Volume where
  partitionLba := 0
  fatStartLba := 1
  dataStartLba := 1 + tableSize
  sectorsPerCluster := 1
  sectorsPerFat := tableSize
  rootCluster := 2
  totalSectors := total
  clusterCount := total - 1 - tableSize
  tableCount := 1

/-- A volume of 100 sectors. -/
theorem mount_validGeometry_small :
    mount (plainDevice 100 1) 0 = some (plainVolume 100 1) ∧ (plainVolume 100 1).ValidGeometry := by
  have hmount : mount (plainDevice 100 1) 0 = some (plainVolume 100 1) := by decide +kernel
  exact ⟨hmount, (mount_validGeometry_iff rfl hmount).mpr (by decide +kernel)⟩

/-- A volume of 129 GiB in clusters of one sector is mounted, and one of its clusters has
the number of the bad mark. -/
theorem mount_cluster_is_mark :
    mount (plainDevice 0x101ffff7 0x200000) 0 = some (plainVolume 0x101ffff7 0x200000) ∧
      (plainVolume 0x101ffff7 0x200000).clusterIsData clusterBad = true ∧
      ¬ (plainVolume 0x101ffff7 0x200000).ValidGeometry := by
  have hdata : (plainVolume 0x101ffff7 0x200000).clusterIsData clusterBad = true := by
    decide +kernel
  refine ⟨by decide +kernel, hdata, fun hvalid => ?_⟩
  exact (hvalid.not_mark clusterBad hdata).1 rfl

end NexOS.Fat32
