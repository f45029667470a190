import NexOS.Fat32.VolumeRuns

/-! # Reading files

A file is read whole, cluster by cluster, or in part, with one request for a row of
clusters that follow one another on the device. Both readings are compared with the
bytes of the clusters on the chain of the file.
-/

namespace NexOS.Fat32

open List Nat ChainTable

/-- The `count` bytes from a place of a list on. -/
def slice (bytes : List UInt8) (start count : Nat) : List UInt8 := (bytes.drop start).take count

/-- How a reading ends. -/
inductive ReadEnd where
  | done (bytes : List UInt8)
  | failed
  | running
  deriving DecidableEq

namespace Geometry

variable (g : Geometry)

/-- `cluster_bytes`. -/
def clusterSize : Nat := g.sectorsPerCluster * 512

/-- `fat32_read_sectors` from a sector of a cluster on. The clusters follow one another on
the device, so that a row of sectors goes on into the next cluster. -/
def readSectors (disk : Disk) (cluster sector count : Nat) : List UInt8 :=
  (List.range (512 * count)).map fun k =>
    let place := (cluster - 2) * g.clusterSize + 512 * sector + k
    disk.data (2 + place / g.clusterSize) (place % g.clusterSize)

/-! ## Whole files -/

/-- What a round of `fat32_read_file` takes from a cluster: full sectors, and the part of
another one that the file still has. -/
def readWholeRound (disk : Disk) (size cluster : Nat) (out : List UInt8) : List UInt8 :=
  let fullSectors := min ((size - out.length) / 512) g.sectorsPerCluster
  let out := out ++ g.readSectors disk cluster 0 fullSectors
  if fullSectors < g.sectorsPerCluster ∧ out.length < size then
    out ++ (g.readSectors disk cluster fullSectors 1).take (min (size - out.length) 512)
  else out

/-- The loop of `fat32_read_file`. -/
def readFileFrom (disk : Disk) (size : Nat) : Nat → Nat → List UInt8 → ReadEnd
  | 0, _, _ => .running
  | rounds + 1, cluster, out =>
    if g.clusterIsData cluster = false ∨ size ≤ out.length then
      if out.length = size then .done out else .failed
    else
      let out := g.readWholeRound disk size cluster out
      if size ≤ out.length then
        if out.length = size then .done out else .failed
      else
        match g.nextCluster disk cluster with
        | none => .failed
        | some next => readFileFrom disk size rounds next out

/-- A whole file, if it fits the buffer. -/
def readFile (disk : Disk) (file : File) (bufferSize : Nat) : ReadEnd :=
  if bufferSize < file.size ∨ file.isDir = true then .failed
  else if file.size ≠ 0 ∧ g.clusterIsData file.firstCluster = false then .failed
  else g.readFileFrom disk file.size (file.size + 1) file.firstCluster []

/-! ## Parts of files -/

/-- The loop of `fat32_read_file_range` that goes to the cluster of the offset. -/
def seekCluster (disk : Disk) : Nat → Nat → Nat → Option (Nat × Nat)
  | 0, cluster, offset => some (cluster, offset)
  | rounds + 1, cluster, offset =>
    if g.clusterSize ≤ offset then
      match g.nextCluster disk cluster with
      | none => none
      | some next =>
        if g.clusterIsData next = false then none
        else seekCluster disk rounds next (offset - g.clusterSize)
    else some (cluster, offset)

/-- The loop that counts the clusters of a row, with the last cluster of the row. -/
def scanRun (disk : Disk) : Nat → Nat → Nat → Nat × Nat
  | 0, scan, run => (scan, run)
  | rounds + 1, scan, run =>
    match g.nextCluster disk scan with
    | none => (scan, run)
    | some next =>
      if next ≠ scan + 1 ∨ g.clusterIsData next = false then (scan, run)
      else scanRun disk rounds next (run + 1)

/-- Where a round of the reading is. -/
structure Cursor where
  cluster : Nat
  sector : Nat
  remaining : Nat
  out : List UInt8

/-- The most clusters that one request covers. -/
def readClusterRunMax : Nat := 128

/-- The part of a first sector that the read begins within. -/
def readHead (disk : Disk) (cluster offset remaining : Nat) (out : List UInt8) : Cursor :=
  let sector := offset / 512
  let sectorOffset := offset % 512
  if sectorOffset ≠ 0 then
    let copySize := min (512 - sectorOffset) remaining
    ⟨cluster, sector + 1, remaining - copySize,
      out ++ slice (g.readSectors disk cluster sector 1) sectorOffset copySize⟩
  else ⟨cluster, sector, remaining, out⟩

/-- Whole clusters that lie one after the other are read at once. -/
def readRun (disk : Disk) (cursor : Cursor) : Cursor :=
  if 512 ≤ cursor.remaining ∧ cursor.sector < g.sectorsPerCluster ∧ cursor.sector = 0 ∧
      g.clusterSize ≤ cursor.remaining then
    let maxClusters := min (cursor.remaining / g.clusterSize) readClusterRunMax
    let (scan, run) := g.scanRun disk (maxClusters - 1) cursor.cluster 1
    if 1 < run then
      ⟨scan, g.sectorsPerCluster, cursor.remaining - run * g.clusterSize,
        cursor.out ++ g.readSectors disk cursor.cluster 0 (run * g.sectorsPerCluster)⟩
    else cursor
  else cursor

/-- The whole sectors of a cluster. -/
def readFull (disk : Disk) (cursor : Cursor) : Cursor :=
  if 512 ≤ cursor.remaining ∧ cursor.sector < g.sectorsPerCluster then
    let fullSectors := min (cursor.remaining / 512) (g.sectorsPerCluster - cursor.sector)
    { cursor with
      sector := cursor.sector + fullSectors
      remaining := cursor.remaining - fullSectors * 512
      out := cursor.out ++ g.readSectors disk cursor.cluster cursor.sector fullSectors }
  else cursor

/-- The part of a last sector. -/
def readTail (disk : Disk) (cursor : Cursor) : Cursor :=
  if cursor.remaining ≠ 0 ∧ cursor.sector < g.sectorsPerCluster then
    let copySize := min cursor.remaining 512
    { cursor with
      remaining := cursor.remaining - copySize
      out := cursor.out ++ (g.readSectors disk cursor.cluster cursor.sector 1).take copySize }
  else cursor

/-- One pass through the loop over the clusters. -/
def readRound (disk : Disk) (cluster offset remaining : Nat) (out : List UInt8) : Cursor :=
  g.readTail disk (g.readFull disk (g.readRun disk (g.readHead disk cluster offset remaining out)))

/-- The loop of `fat32_read_file_range` that reads. -/
def readRangeFrom (disk : Disk) : Nat → Nat → Nat → Nat → List UInt8 → ReadEnd
  | 0, _, _, _, _ => .running
  | rounds + 1, cluster, offset, remaining, out =>
    if g.clusterIsData cluster = false ∨ remaining = 0 then .done out
    else
      let cursor := g.readRound disk cluster offset remaining out
      if cursor.remaining ≠ 0 then
        match g.nextCluster disk cursor.cluster with
        | none => .failed
        | some next =>
          if g.clusterIsData next = false then .failed
          else readRangeFrom disk rounds next 0 cursor.remaining cursor.out
      else .done cursor.out

lemma readRangeFrom_succ (d : Disk) (rounds cluster offset remaining : Nat) (out : List UInt8) :
    g.readRangeFrom d (rounds + 1) cluster offset remaining out =
      if g.clusterIsData cluster = false ∨ remaining = 0 then .done out
      else
        let cursor := g.readRound d cluster offset remaining out
        if cursor.remaining ≠ 0 then
          match g.nextCluster d cursor.cluster with
          | none => .failed
          | some next =>
            if g.clusterIsData next = false then .failed
            else g.readRangeFrom d rounds next 0 cursor.remaining cursor.out
        else .done cursor.out := by
  exact rfl

/-- A part of a file, cut at its end. -/
def readFileRange (disk : Disk) (file : File) (offset bufferSize : Nat) : ReadEnd :=
  if file.isDir = true ∨ file.size < offset then .failed
  else if offset = file.size ∨ bufferSize = 0 then .done []
  else if g.clusterIsData file.firstCluster = false then .failed
  else
    match g.seekCluster disk (offset / g.clusterSize) file.firstCluster offset with
    | none => .failed
    | some (cluster, clusterOffset) =>
      let remaining := min (file.size - offset) bufferSize
      g.readRangeFrom disk (remaining + 1) cluster clusterOffset remaining []

end Geometry

/-! ## Slices -/

section Slices

variable {bytes : List UInt8} {start count more : Nat}

lemma slice_append_slice : slice bytes start count ++ slice bytes (start + count) more =
    slice bytes start (count + more) := by
  rw [slice, slice, slice, ← drop_drop, take_add]

lemma slice_slice {first size : Nat} (hle : start + count ≤ size) :
    slice (slice bytes first size) start count = slice bytes (first + start) count := by
  rw [slice, slice, slice, drop_take, take_take, drop_drop, min_eq_left (by omega)]

lemma slice_append_left {back : List UInt8} (hle : start + count ≤ bytes.length) :
    slice (bytes ++ back) start count = slice bytes start count := by
  rw [slice, slice, drop_append_of_le_length (by omega), take_append_of_le_length]
  rw [length_drop]
  omega

lemma slice_append_right {front : List UInt8} :
    slice (front ++ bytes) (front.length + start) count = slice bytes start count := by
  rw [slice, slice, ← drop_drop, drop_left]

lemma length_slice (hle : start + count ≤ bytes.length) :
    (slice bytes start count).length = count := by
  rw [slice, length_take, length_drop]
  omega

end Slices

namespace Geometry

variable {g : Geometry} {d : Disk} {cluster : Nat} {cells : List Nat}

lemma clusterSize_pos : 0 < g.clusterSize := mul_pos g.sectors_pos (by decide)

def clusterBytes (g : Geometry) (disk : Disk) (cluster : Nat) : List UInt8 :=
  (List.range g.clusterSize).map (disk.data cluster)

/-- The bytes of a chain. -/
def content (g : Geometry) (disk : Disk) (cells : List Nat) : List UInt8 :=
  cells.flatMap (g.clusterBytes disk)

@[simp] lemma length_clusterBytes : (g.clusterBytes d cluster).length = g.clusterSize := by
  simp [clusterBytes]

lemma length_content : (g.content d cells).length = cells.length * g.clusterSize :=
  length_flatMap_const (fun _ => length_clusterBytes) cells

lemma content_append (front back : List Nat) :
    g.content d (front ++ back) = g.content d front ++ g.content d back :=
  flatMap_append

/-! ## Sectors -/

lemma readSectors_within {sector count : Nat} (hlow : 2 ≤ cluster)
    (hle : sector + count ≤ g.sectorsPerCluster) :
    g.readSectors d cluster sector count =
      slice (g.clusterBytes d cluster) (512 * sector) (512 * count) := by
  have hsize : g.clusterSize = g.sectorsPerCluster * 512 := rfl
  apply ext_getElem
  · rw [length_slice (by rw [length_clusterBytes]; omega)]
    simp [readSectors]
  intro k hk hk'
  have hcount : k < 512 * count := by simpa [readSectors] using hk
  have hplace : (cluster - 2) * g.clusterSize + 512 * sector + k =
      512 * sector + k + g.clusterSize * (cluster - 2) := by
    rw [mul_comm g.clusterSize]
    omega
  have hlt : 512 * sector + k < g.clusterSize := by omega
  simp only [readSectors, slice, clusterBytes, getElem_map, getElem_range,
    getElem_take, getElem_drop, hplace, add_mul_div_left _ _ clusterSize_pos,
    add_mul_mod_self_left, div_eq_of_lt hlt, mod_eq_of_lt hlt]
  congr 1
  omega

/-- A row of sectors that begins with a cluster takes in the clusters that follow it. -/
lemma readSectors_row (hlow : 2 ≤ cluster) (run : Nat) :
    g.readSectors d cluster 0 (run * g.sectorsPerCluster) =
      g.content d (List.range' cluster run) := by
  have hbytes : 512 * (run * g.sectorsPerCluster) = run * g.clusterSize := by
    rw [clusterSize, mul_comm 512, mul_assoc]
  rw [readSectors, hbytes]
  induction run with
  | zero => simp [content]
  | succ run ih =>
    have hsucc : (run + 1) * g.clusterSize = run * g.clusterSize + g.clusterSize := succ_mul _ _
    rw [hsucc, range_add, map_append, ih (by
      rw [clusterSize, mul_comm 512, mul_assoc]), range'_concat, content_append]
    congr 1
    simp only [content, flatMap_cons, flatMap_nil, append_nil, map_map]
    apply map_congr_left
    intro k hk
    have hlt : k < g.clusterSize := mem_range.mp hk
    have hplace : (cluster - 2) * g.clusterSize + 512 * 0 + (run * g.clusterSize + k) =
        k + g.clusterSize * (cluster - 2 + run) := by
      rw [mul_comm g.clusterSize, add_mul]
      omega
    simp only [Function.comp_apply, hplace, add_mul_div_left _ _ clusterSize_pos,
      add_mul_mod_self_left, div_eq_of_lt hlt, mod_eq_of_lt hlt]
    congr 1
    omega

/-! ## Chains -/

lemma isData_eq_false_of_end {next : Nat} (hend : clusterEnd ≤ next) :
    g.clusterIsData next = false := by
  by_contra hdata
  have hlt := (lt_clusterEnd_of_isData (by simpa using hdata : g.clusterIsData next = true)).2
  omega

lemma low_of_chain (hchain : Chain (g.link d) cluster cells) :
    g.clusterIsData cluster = true ∧ 2 ≤ cluster := by
  have hdata := isData_of_mem_chain hchain hchain.mem_first
  exact ⟨hdata, (clusterIsData_iff.mp hdata).1⟩

/-- The link of a cluster leads to the rest of its chain, or to no cluster. -/
lemma nextCluster_of_chain {rest : List Nat} (hchain : Chain (g.link d) cluster (cluster :: rest)) :
    ∃ next, g.nextCluster d cluster = some next ∧
      ((rest = [] ∧ g.clusterIsData next = false) ∨ Chain (g.link d) next rest) := by
  cases hchain with
  | last hlast =>
    obtain ⟨next, hnext, hend⟩ := nextCluster_of_last hlast
    exact ⟨next, hnext, .inl ⟨rfl, isData_eq_false_of_end hend⟩⟩
  | next hlink hrest =>
    exact ⟨_, nextCluster_of_next hlink (low_of_chain hrest).1, .inr hrest⟩

/-- The clusters of a row are the first ones of the chain. -/
lemma scanRun_spec (hchain : Chain (g.link d) cluster cells) (rounds run : Nat) :
    ∃ k after, g.scanRun d rounds cluster run = (cluster + k, run + k) ∧ k ≤ rounds ∧
      cells = List.range' cluster (k + 1) ++ after ∧
      Chain (g.link d) (cluster + k) ((cluster + k) :: after) := by
  obtain ⟨rest, rfl⟩ := hchain.exists_cons
  have hstop : ∃ k after, (cluster, run) = (cluster + k, run + k) ∧ k ≤ rounds ∧
      cluster :: rest = List.range' cluster (k + 1) ++ after ∧
      Chain (g.link d) (cluster + k) ((cluster + k) :: after) :=
    ⟨0, rest, rfl, zero_le _, rfl, hchain⟩
  induction rounds generalizing cluster rest run with
  | zero => exact hstop
  | succ rounds ih =>
    obtain ⟨next, hnext, hrest⟩ := nextCluster_of_chain hchain
    unfold scanRun
    rw [hnext]
    dsimp only
    rcases hrest with ⟨-, hdata⟩ | hrest
    · rw [if_pos (.inr hdata)]
      exact hstop
    by_cases hrow : next = cluster + 1
    · subst hrow
      rw [if_neg (by simp [(low_of_chain hrest).1])]
      obtain ⟨rest', rfl⟩ := hrest.exists_cons
      obtain ⟨k, after, hscan, hle, hcells, hlast⟩ :=
        ih (run + 1) rest' hrest ⟨0, rest', rfl, zero_le _, rfl, hrest⟩
      refine ⟨k + 1, after, ?_, by omega, ?_, ?_⟩
      · rw [hscan, add_right_comm cluster, add_right_comm run, add_assoc cluster, add_assoc run]
      · rw [range'_succ, cons_append, ← hcells]
      · rwa [add_assoc, add_comm 1] at hlast
    · rw [if_pos (.inl hrow)]
      exact hstop

/-! ## A round -/

/-- What was read of a cluster so far. -/
structure Partway (g : Geometry) (disk : Disk) (cluster offset total : Nat) (out : List UInt8)
    (cursor : Cursor) : Prop where
  cluster_eq : cursor.cluster = cluster
  remaining_le : cursor.remaining ≤ total
  out_eq : cursor.out = out ++ slice (g.clusterBytes disk cluster) offset (total - cursor.remaining)
  place : cursor.remaining = 0 ∨ offset + (total - cursor.remaining) = 512 * cursor.sector
  fits : offset + (total - cursor.remaining) ≤ g.clusterSize
  sector_le : cursor.sector ≤ g.sectorsPerCluster

variable {offset total : Nat} {out : List UInt8} {cursor : Cursor}

/-- More bytes are taken from where the cursor is. -/
lemma Partway.advance (hpart : Partway g d cluster offset total out cursor)
    (hne : cursor.remaining ≠ 0) {sector count : Nat} (hcount : count ≤ cursor.remaining)
    (hplace : cursor.remaining = count ∨ 512 * cursor.sector + count = 512 * sector)
    (hfits : 512 * cursor.sector + count ≤ g.clusterSize) (hsec : sector ≤ g.sectorsPerCluster) :
    Partway g d cluster offset total out
      ⟨cursor.cluster, sector, cursor.remaining - count,
        cursor.out ++ slice (g.clusterBytes d cluster) (512 * cursor.sector) count⟩ := by
  have hle := hpart.remaining_le
  have hstart := hpart.place.resolve_left hne
  refine ⟨hpart.cluster_eq, by dsimp only; omega, ?_, by dsimp only; omega, by dsimp only; omega,
    hsec⟩
  dsimp only
  rw [hpart.out_eq, ← hstart, append_assoc, slice_append_slice]
  congr 2
  omega

lemma partway_readHead (hlow : 2 ≤ cluster) (hoff : offset < g.clusterSize) :
    Partway g d cluster offset total out (g.readHead d cluster offset total out) := by
  have hsize : g.clusterSize = g.sectorsPerCluster * 512 := rfl
  have hsec : offset / 512 < g.sectorsPerCluster := by omega
  unfold readHead
  by_cases hhead : offset % 512 = 0
  · rw [if_neg (not_not_intro hhead)]
    refine ⟨rfl, le_rfl, ?_, .inr ?_, ?_, hsec.le⟩
    · simp [slice]
    · dsimp only
      omega
    · dsimp only
      omega
  · rw [if_pos hhead]
    refine ⟨rfl, sub_le _ _, ?_, by dsimp only; omega, by dsimp only; omega, hsec⟩
    dsimp only
    rw [readSectors_within hlow hsec, slice_slice (by omega)]
    congr 2 <;> omega

lemma partway_readFull (hlow : 2 ≤ cluster) (hpart : Partway g d cluster offset total out cursor) :
    Partway g d cluster offset total out (g.readFull d cursor) ∧
      ((g.readFull d cursor).remaining < 512 ∨
        (g.readFull d cursor).sector = g.sectorsPerCluster) := by
  have hsize : g.clusterSize = g.sectorsPerCluster * 512 := rfl
  have hle := hpart.sector_le
  unfold readFull
  split
  · dsimp only
    generalize hcount : min (cursor.remaining / 512) (g.sectorsPerCluster - cursor.sector) = count
    refine ⟨?_, by omega⟩
    rw [hpart.cluster_eq, readSectors_within hlow (by omega), mul_comm 512 count]
    have hnext := hpart.advance (by omega) (show count * 512 ≤ cursor.remaining by omega)
      (.inr (show _ = 512 * (cursor.sector + count) by omega)) (by omega) (by omega)
    rwa [hpart.cluster_eq] at hnext
  · exact ⟨hpart, by omega⟩

lemma partway_readTail (hlow : 2 ≤ cluster) (hpart : Partway g d cluster offset total out cursor)
    (hend : cursor.remaining < 512 ∨ cursor.sector = g.sectorsPerCluster) :
    Partway g d cluster offset total out (g.readTail d cursor) ∧
      ((g.readTail d cursor).remaining = 0 ∨
        (g.readTail d cursor).sector = g.sectorsPerCluster) := by
  have hsize : g.clusterSize = g.sectorsPerCluster * 512 := rfl
  have hle := hpart.sector_le
  unfold readTail
  split
  next htail =>
    dsimp only
    have hcopy : min cursor.remaining 512 = cursor.remaining := by omega
    rw [hcopy]
    refine ⟨?_, .inl (Nat.sub_self _)⟩
    have hnext := hpart.advance htail.1 le_rfl (.inl rfl) (by omega) hpart.sector_le
    have hbytes : (g.readSectors d cursor.cluster cursor.sector 1).take cursor.remaining =
        slice (g.clusterBytes d cluster) (512 * cursor.sector) cursor.remaining := by
      rw [hpart.cluster_eq, readSectors_within hlow htail.2, ← @drop_zero _ (slice _ _ _)]
      exact slice_slice (by omega)
    rwa [hbytes]
  · exact ⟨hpart, by omega⟩

/-- What a round has read: the bytes of the first clusters of the chain, up to the end of
the last of them or of the request. -/
structure Rounded (g : Geometry) (disk : Disk) (cells : List Nat) (offset total : Nat)
    (out : List UInt8) (cursor : Cursor) (front after : List Nat) : Prop where
  cells_eq : cells = front ++ after
  front_ne : front ≠ []
  chain : Chain (g.link disk) cursor.cluster (cursor.cluster :: after)
  remaining_eq : cursor.remaining = total - min total (front.length * g.clusterSize - offset)
  out_eq : cursor.out = out ++ slice (g.content disk front) offset
    (min total (front.length * g.clusterSize - offset))

lemma readRun_cases (hchain : Chain (g.link d) cluster cells) (hoff : offset < g.clusterSize) :
    g.readRun d (g.readHead d cluster offset total out) = g.readHead d cluster offset total out ∨
      offset = 0 ∧ ∃ run after, 1 < run ∧ run * g.clusterSize ≤ total ∧
        cells = List.range' cluster run ++ after ∧
        Chain (g.link d) (cluster + run - 1) ((cluster + run - 1) :: after) ∧
        g.readRun d (g.readHead d cluster offset total out) =
          ⟨cluster + run - 1, g.sectorsPerCluster, total - run * g.clusterSize,
            out ++ g.content d (List.range' cluster run)⟩ := by
  unfold readRun
  split
  next hrow =>
    obtain ⟨-, -, hsec, hsize⟩ := hrow
    have hzero : offset = 0 := by
      unfold readHead at hsec
      dsimp only at hsec
      split at hsec
      · exact absurd hsec (succ_ne_zero _)
      · dsimp only at hsec
        omega
    subst hzero
    have hhead : g.readHead d cluster 0 total out = ⟨cluster, 0, total, out⟩ := rfl
    rw [hhead] at hsize ⊢
    dsimp only at hsize ⊢
    obtain ⟨k, after, hscan, hk, hcells, hlast⟩ := scanRun_spec hchain
      (min (total / g.clusterSize) readClusterRunMax - 1) 1
    rw [hscan]
    split
    next hrun =>
      have hrunLe : (1 + k) * g.clusterSize ≤ total :=
        (le_div_iff_mul_le clusterSize_pos).mp (by omega)
      refine .inr ⟨rfl, 1 + k, after, hrun, hrunLe, ?_, ?_, ?_⟩
      · rwa [add_comm 1]
      · rwa [show cluster + (1 + k) - 1 = cluster + k by omega]
      · rw [show cluster + (1 + k) - 1 = cluster + k by omega,
          readSectors_row (low_of_chain hchain).2]
    · exact .inl rfl
  · exact .inl rfl

lemma exists_rounded (hchain : Chain (g.link d) cluster cells) (hoff : offset < g.clusterSize) :
    ∃ front after, Rounded g d cells offset total out (g.readRound d cluster offset total out)
      front after := by
  have hlow := (low_of_chain hchain).2
  unfold readRound
  rcases @readRun_cases g d cluster cells offset total out hchain hoff with
    hsame | ⟨rfl, run, after, hrun, hle, hcells, hlast, heq⟩
  · rw [hsame]
    obtain ⟨hfull, hfullEnd⟩ := partway_readFull hlow
      (@partway_readHead g d cluster offset total out hlow hoff)
    obtain ⟨hpart, hend⟩ := partway_readTail hlow hfull hfullEnd
    generalize g.readTail d _ = cursor at hpart hend ⊢
    obtain ⟨rest, rfl⟩ := hchain.exists_cons
    have hsize : g.clusterSize = g.sectorsPerCluster * 512 := rfl
    have hplace := hpart.place
    have hfits := hpart.fits
    have hread : total - cursor.remaining = min total (1 * g.clusterSize - offset) := by omega
    refine ⟨[cluster], rest, rfl, cons_ne_nil _ _, ?_, ?_, ?_⟩
    · rwa [hpart.cluster_eq]
    · rw [length_singleton]
      omega
    · rw [hpart.out_eq, length_singleton, ← hread]
      simp [content]
  · -- the cursor is behind the last sector, so that nothing else is read in this round
    have hfull : ∀ cursor : Cursor, cursor.sector = g.sectorsPerCluster →
        g.readTail d (g.readFull d cursor) = cursor := fun cursor hsec => by
      rw [readFull, if_neg (by omega), readTail, if_neg (by omega)]
    rw [heq, hfull _ rfl]
    have hlen : (List.range' cluster run).length = run := length_range'
    have hmin : min total (run * g.clusterSize - 0) = run * g.clusterSize := by omega
    refine ⟨_, after, hcells, ?_, hlast, ?_, ?_⟩
    · exact ne_nil_of_length_pos (by omega)
    · rw [hlen, hmin]
    · have hall : slice (g.content d (List.range' cluster run)) 0 (run * g.clusterSize) =
          g.content d (List.range' cluster run) := by
        rw [slice, drop_zero, take_of_length_le]
        rw [length_content, hlen]
      rw [hlen, hmin, hall]

/-! ## The loops -/

/-- The bytes of a chain are those of its first clusters and of the rest. -/
lemma slice_content_append {front after : List Nat} {first rest : Nat}
    (hfirst : offset + first = front.length * g.clusterSize) :
    slice (g.content d (front ++ after)) offset (first + rest) =
      slice (g.content d front) offset first ++ slice (g.content d after) 0 rest := by
  have hlen : (g.content d front).length = front.length * g.clusterSize := length_content
  rw [content_append, ← slice_append_slice, slice_append_left (by omega)]
  congr 1
  rw [hfirst, ← hlen]
  exact @slice_append_right (g.content d after) 0 rest (g.content d front)

lemma readRangeFrom_of_chain (hchain : Chain (g.link d) cluster cells)
    (hoff : offset < g.clusterSize) {rounds : Nat} (hrounds : total < rounds) :
    g.readRangeFrom d rounds cluster offset total out =
      if offset + total ≤ cells.length * g.clusterSize then
        .done (out ++ slice (g.content d cells) offset total)
      else .failed := by
  -- each round takes at least one byte
  induction rounds generalizing cluster cells offset total out with
  | zero => exact absurd hrounds (Nat.not_lt_zero _)
  | succ rounds ih =>
    rw [readRangeFrom_succ]
    rcases Nat.eq_zero_or_pos total with rfl | hpos
    · obtain ⟨rest, rfl⟩ := hchain.exists_cons
      have hfits : offset + 0 ≤ (cluster :: rest).length * g.clusterSize := by
        rw [length_cons, add_one_mul]
        omega
      rw [if_pos (.inr rfl), if_pos hfits]
      simp [slice]
    rw [if_neg (by simp [(low_of_chain hchain).1]; omega)]
    obtain ⟨front, after, hround⟩ := @exists_rounded g d cluster cells offset total out hchain hoff
    generalize g.readRound d cluster offset total out = cursor at hround ⊢
    have hrem := hround.remaining_eq
    have hfront : g.clusterSize ≤ front.length * g.clusterSize :=
      Nat.le_mul_of_pos_left _ (length_pos_of_ne_nil hround.front_ne)
    have hlen : cells.length * g.clusterSize =
        front.length * g.clusterSize + after.length * g.clusterSize := by
      rw [hround.cells_eq, length_append, add_mul]
    by_cases hdone : cursor.remaining = 0
    · rw [if_neg (not_not_intro hdone), if_pos (by omega), hround.out_eq]
      have hmin : min total (front.length * g.clusterSize - offset) = total := by omega
      rw [hmin, hround.cells_eq, content_append, slice_append_left]
      rw [length_content]
      omega
    have hmin : min total (front.length * g.clusterSize - offset) =
        front.length * g.clusterSize - offset := by omega
    obtain ⟨next, hnext, hrest⟩ := nextCluster_of_chain hround.chain
    rw [if_pos hdone, hnext]
    dsimp only
    rcases hrest with ⟨rfl, hdata⟩ | hrest
    · rw [if_pos hdata, if_neg]
      simp only [length_nil, zero_mul] at hlen
      omega
    rw [if_neg (by simp [(low_of_chain hrest).1]), ih hrest clusterSize_pos (by omega)]
    have hiff : 0 + cursor.remaining ≤ after.length * g.clusterSize ↔
        offset + total ≤ cells.length * g.clusterSize := by omega
    simp only [hiff]
    congr 2
    rw [hround.out_eq, hmin, append_assoc, hround.cells_eq, ← slice_content_append (by omega)]
    congr 2
    omega

lemma seekCluster_of_chain (hchain : Chain (g.link d) cluster cells) {count : Nat}
    (hcount : count * g.clusterSize ≤ offset) :
    (cells.length ≤ count ∧ g.seekCluster d count cluster offset = none) ∨
      ∃ front rest found, cells = front ++ rest ∧ front.length = count ∧
        Chain (g.link d) found rest ∧
        g.seekCluster d count cluster offset = some (found, offset - count * g.clusterSize) := by
  induction count generalizing cluster cells offset with
  | zero => exact .inr ⟨[], cells, cluster, rfl, rfl, hchain, by simp [seekCluster]⟩
  | succ count ih =>
    rw [Nat.add_one_mul] at hcount
    obtain ⟨rest, rfl⟩ := hchain.exists_cons
    obtain ⟨next, hnext, hrest⟩ := nextCluster_of_chain hchain
    unfold seekCluster
    rw [if_pos (by omega), hnext]
    dsimp only
    rcases hrest with ⟨rfl, hdata⟩ | hrest
    · rw [if_pos hdata]
      exact .inl ⟨by simp, rfl⟩
    rw [if_neg (by simp [(low_of_chain hrest).1])]
    rcases ih hrest (show count * g.clusterSize ≤ offset - g.clusterSize by omega) with
      ⟨hshort, hseek⟩ | ⟨front, after, found, hcells, hlen, hfound, hseek⟩
    · exact .inl ⟨by simpa using hshort, hseek⟩
    · refine .inr ⟨cluster :: front, after, found, ?_, by simp [hlen], hfound, ?_⟩
      · rw [hcells, cons_append]
      · rw [hseek, Nat.add_one_mul, Nat.sub_sub, Nat.add_comm g.clusterSize]

/-- The bytes of a chain from a place up to another, if the chain has them. -/
def chainSlice (g : Geometry) (disk : Disk) (cells : List Nat) (start stop : Nat) : ReadEnd :=
  if start = stop ∨ stop ≤ (g.content disk cells).length then
    .done (slice (g.content disk cells) start (stop - start))
  else .failed

variable {file : File} {bufferSize : Nat}

lemma readFileRange_of_chain (hchain : Chain (g.link d) file.firstCluster cells)
    (hdir : file.isDir = false) (hoff : offset ≤ file.size) :
    g.readFileRange d file offset bufferSize =
      g.chainSlice d cells offset (min (offset + bufferSize) file.size) := by
  unfold readFileRange chainSlice
  rw [if_neg (by simp [hdir]; omega), length_content]
  by_cases hempty : offset = file.size ∨ bufferSize = 0
  · rw [if_pos hempty, if_pos (.inl (by omega)),
      show min (offset + bufferSize) file.size - offset = 0 by omega]
    simp [slice]
  rw [if_neg hempty, if_neg (by simp [(low_of_chain hchain).1])]
  have htotal : min (offset + bufferSize) file.size - offset =
      min (file.size - offset) bufferSize := by
    omega
  have hmod : offset - offset / g.clusterSize * g.clusterSize = offset % g.clusterSize := by
    rw [mul_comm]
    exact (mod_eq_sub_mul_div).symm
  have hlow : offset / g.clusterSize * g.clusterSize ≤ offset := div_mul_le_self _ _
  rw [htotal]
  rcases seekCluster_of_chain hchain hlow with
    ⟨hshort, hseek⟩ | ⟨front, rest, found, hcells, hlen, hfound, hseek⟩
  · have hend : cells.length * g.clusterSize ≤ offset / g.clusterSize * g.clusterSize :=
      mul_le_mul_right _ hshort
    rw [hseek, if_neg (by omega)]
  have hcontent : (g.content d front).length = offset / g.clusterSize * g.clusterSize := by
    rw [length_content, hlen]
  have hcellsLength : cells.length * g.clusterSize =
      offset / g.clusterSize * g.clusterSize + rest.length * g.clusterSize := by
    rw [hcells, length_append, add_mul, hlen]
  rw [hseek]
  dsimp only
  rw [readRangeFrom_of_chain hfound (by rw [hmod]; exact mod_lt _ clusterSize_pos)
    (lt_succ_self _), nil_append]
  have hiff :
      offset - offset / g.clusterSize * g.clusterSize + min (file.size - offset) bufferSize ≤
      rest.length * g.clusterSize ↔ offset = min (offset + bufferSize) file.size ∨
        min (offset + bufferSize) file.size ≤ cells.length * g.clusterSize := by omega
  simp only [hiff]
  congr 2
  rw [hcells, content_append, ← slice_append_right]
  congr 1
  omega

/-! ## Whole files -/

lemma readWholeRound_eq (hlow : 2 ≤ cluster) {size : Nat} (hlt : out.length < size) :
    g.readWholeRound d size cluster out =
      out ++ slice (g.clusterBytes d cluster) 0 (min (size - out.length) g.clusterSize) := by
  have hsize : g.clusterSize = g.sectorsPerCluster * 512 := rfl
  unfold readWholeRound
  generalize hfull : min ((size - out.length) / 512) g.sectorsPerCluster = full
  have hsecs : g.readSectors d cluster 0 full =
      slice (g.clusterBytes d cluster) 0 (512 * full) := readSectors_within hlow (by omega)
  have hlen : (out ++ g.readSectors d cluster 0 full).length = out.length + 512 * full := by
    rw [length_append, hsecs, length_slice (by rw [length_clusterBytes]; omega)]
  dsimp only
  rw [hlen]
  split
  next hmore =>
    rw [hsecs, readSectors_within hlow hmore.1, append_assoc]
    have htail : (slice (g.clusterBytes d cluster) (512 * full) (512 * 1)).take
        (min (size - (out.length + 512 * full)) 512) =
        slice (g.clusterBytes d cluster) (0 + 512 * full)
          (min (size - (out.length + 512 * full)) 512) := by
      rw [← @drop_zero _ (slice _ _ _), zero_add]
      exact slice_slice (by omega)
    rw [htail, slice_append_slice]
    congr 2
    omega
  · rw [hsecs]
    congr 2
    omega

lemma readFileFrom_of_chain (hchain : Chain (g.link d) cluster cells) {size rounds : Nat}
    (hlt : out.length < size) (hrounds : size - out.length < rounds) :
    g.readFileFrom d size rounds cluster out =
      if size ≤ out.length + cells.length * g.clusterSize then
        .done (out ++ slice (g.content d cells) 0 (size - out.length))
      else .failed := by
  induction rounds generalizing cluster cells out with
  | zero => exact absurd hrounds (not_lt_zero _)
  | succ rounds ih =>
    obtain ⟨hdata, hlow⟩ := low_of_chain hchain
    obtain ⟨rest, rfl⟩ := hchain.exists_cons
    have hpos := @clusterSize_pos g
    have hcells : (cluster :: rest).length * g.clusterSize =
        g.clusterSize + rest.length * g.clusterSize := by
      rw [length_cons, add_one_mul, add_comm]
    unfold readFileFrom
    rw [if_neg (by simp [hdata]; omega), readWholeRound_eq hlow hlt]
    generalize hcount : min (size - out.length) g.clusterSize = count
    have hbytes : (slice (g.clusterBytes d cluster) 0 count).length = count :=
      length_slice (by rw [length_clusterBytes]; omega)
    dsimp only
    rw [length_append, hbytes]
    by_cases hdone : size ≤ out.length + count
    · rw [if_pos hdone, if_pos (by omega), if_pos (by omega)]
      have hone : g.content d (cluster :: rest) =
          g.clusterBytes d cluster ++ g.content d rest := flatMap_cons
      rw [hone, slice_append_left (by rw [length_clusterBytes]; omega)]
      congr 3
      omega
    obtain ⟨next, hnext, hrest⟩ := nextCluster_of_chain hchain
    rw [if_neg hdone, hnext]
    dsimp only
    rcases hrest with ⟨rfl, hend⟩ | hrest
    · -- the chain is over, and the loop ends before its size is reached
      simp only [length_nil] at hcells
      obtain ⟨rounds, rfl⟩ : ∃ more, rounds = more + 1 := ⟨rounds - 1, by omega⟩
      rw [readFileFrom, if_pos (.inl hend), length_append, if_neg (by omega), if_neg (by omega)]
    rw [ih hrest (by rw [length_append]; omega)
      (by rw [length_append]; omega), length_append, hbytes]
    have hiff : size ≤ out.length + count + rest.length * g.clusterSize ↔
        size ≤ out.length + (cluster :: rest).length * g.clusterSize := by omega
    simp only [hiff]
    have hfirst : 0 + count = [cluster].length * g.clusterSize := by
      rw [length_singleton]
      omega
    have hsplit := @slice_content_append g d 0 [cluster] rest count
      (size - (out.length + count)) hfirst
    rw [show size - out.length = count + (size - (out.length + count)) by omega]
    rw [singleton_append] at hsplit
    rw [hsplit]
    simp [content]

/-- A file has no cluster or a chain that ends. -/
def FileChain (g : Geometry) (disk : Disk) (first : Nat) (cells : List Nat) : Prop :=
  (cells = [] ∧ g.clusterIsData first = false) ∨ Chain (g.link disk) first cells

/-- Reading a part of a file gives the bytes of its chain from the offset up to the end of
the request or of the file, and reading it whole gives the same as reading all of it in
part. A reading that starts behind the end of the file, or for which the chain is too
short, fails. -/
theorem readFileRange_eq_chainSlice (g : Geometry) (disk : Disk) (file : File) (cells : List Nat)
    (hchain : g.FileChain disk file.firstCluster cells) (hdir : file.isDir = false) :
    (∀ offset bufferSize, g.readFileRange disk file offset bufferSize =
      if offset ≤ file.size then
        g.chainSlice disk cells offset (min (offset + bufferSize) file.size)
      else .failed) ∧
    ∀ bufferSize, file.size ≤ bufferSize →
      g.readFile disk file bufferSize = g.readFileRange disk file 0 bufferSize := by
  have hrange : ∀ offset bufferSize, g.readFileRange disk file offset bufferSize =
      if offset ≤ file.size then
        g.chainSlice disk cells offset (min (offset + bufferSize) file.size)
      else .failed := by
    intro offset bufferSize
    split
    next hoff =>
      rcases hchain with ⟨rfl, hdata⟩ | hchain
      · unfold readFileRange chainSlice
        rw [if_neg (by simp [hdir]; omega)]
        by_cases hempty : offset = file.size ∨ bufferSize = 0
        · rw [if_pos hempty, if_pos (.inl (by omega))]
          simp [content, slice]
        · rw [if_neg hempty, if_pos hdata, if_neg]
          simp only [content, flatMap_nil, length_nil]
          omega
      · exact readFileRange_of_chain hchain hdir hoff
    · rw [readFileRange, if_pos (.inr (by omega))]
  refine ⟨hrange, fun bufferSize hbuf => ?_⟩
  rw [hrange, if_pos (Nat.zero_le _), Nat.zero_add, Nat.min_eq_right hbuf]
  unfold readFile chainSlice
  rw [if_neg (by simp [hdir]; omega)]
  rcases Nat.eq_zero_or_pos file.size with hzero | hpos
  · rw [hzero, readFileFrom]
    simp [slice]
  rcases hchain with ⟨rfl, hdata⟩ | hchain
  · rw [if_pos ⟨by omega, hdata⟩, if_neg]
    simp only [content, flatMap_nil, length_nil]
    omega
  · rw [if_neg (by simp [(low_of_chain hchain).1]), readFileFrom_of_chain hchain hpos (by simp),
      length_content, length_nil, zero_add]
    have hiff : file.size ≤ cells.length * g.clusterSize ↔
        0 = file.size ∨ file.size ≤ cells.length * g.clusterSize := by omega
    exact if_congr hiff rfl rfl

/-- A volume with a file on the clusters 3, 4 and 6, each filled with its number. -/
def fragmented : Disk where
  fat _ cluster := match cluster with
    | 2 => clusterEnd
    | 3 => 4
    | 4 => 6
    | 6 => clusterEnd
    | _ => 0
  data cluster _ := UInt8.ofNat cluster

/-- A file in clusters 3, 4 and 6. -/
def fragmentedFile : File :=
  { name := [0x46], firstCluster := 3, size := 1300, attributes := 0, lfnEntryCount := 0
    direntIndex := 0 }

/-- A read over the gap between clusters 4 and 6. -/
theorem readFileRange_fragmented : small.readFileRange fragmented fragmentedFile 100 1100 =
        small.chainSlice fragmented [3, 4, 6] 100 (min (100 + 1100) fragmentedFile.size) ∧
      small.readFile fragmented fragmentedFile 2000 =
        small.readFileRange fragmented fragmentedFile 0 2000 := by
  have hchain : small.FileChain fragmented 3 [3, 4, 6] :=
    .inr (.next (by decide) (.next (by decide) (.last (by decide))))
  obtain ⟨hrange, hwhole⟩ :=
    readFileRange_eq_chainSlice small fragmented fragmentedFile _ hchain rfl
  refine ⟨?_, hwhole 2000 (by decide)⟩
  rw [hrange, if_pos (by decide)]

end Geometry

end NexOS.Fat32
