import NexOS.Fat32.Lookup

/-! # Volumes

A volume is an area of clusters and the tables that link them. Files and directories
are chains of clusters, and a directory is scanned as the slots of its clusters. All
reads and writes of the device succeed; what is left out is how a cluster and a place
in a table are found on the device.
-/

namespace NexOS.Fat32

/-- What is fixed when a volume is mounted. Cluster numbers go up to those that the
format keeps for marks. -/
structure Geometry where
  clusterCount : Nat
  tableCount : Nat
  sectorsPerCluster : Nat
  rootCluster : Nat
  tables_pos : 0 < tableCount
  sectors_pos : 0 < sectorsPerCluster
  count_le : clusterCount ≤ 0x0ffffff5
  root_data : 2 ≤ rootCluster ∧ rootCluster < clusterCount + 2

/-- The entries of each table, and the bytes of each cluster. -/
structure Disk where
  fat : Nat → Nat → Nat
  data : Nat → Nat → UInt8

/-- The mark of a bad cluster. -/
def clusterBad : Nat := 0x0ffffff7

/-- The first mark of the end of a chain. -/
def clusterEnd : Nat := 0x0ffffff8

namespace Geometry

variable (g : Geometry)

/-- The clusters are numbered from 2. -/
def clusterIsData (cluster : Nat) : Bool := 2 ≤ cluster ∧ cluster < g.clusterCount + 2

def slotsPerCluster : Nat := 16 * g.sectorsPerCluster

/-! ## Tables -/

/-- `fat32_next_cluster`, which reads the first table. -/
def nextCluster (disk : Disk) (cluster : Nat) : Option Nat :=
  if g.clusterIsData cluster = false then none
  else
    let next := disk.fat 0 cluster % 2 ^ 28
    if next ≠ 0 ∧ next < clusterEnd ∧ g.clusterIsData next = false then none else some next

/-- The low 28 bits change, in every table. -/
def setEntry (fat : Nat → Nat → Nat) (cluster value : Nat) : Nat → Nat → Nat := fun table k =>
    if table < g.tableCount ∧ k = cluster then fat table k / 2 ^ 28 * 2 ^ 28 + value % 2 ^ 28
    else fat table k

/-- An entry of the tables, if cluster and value are legal. -/
def writeFatEntry (disk : Disk) (cluster value : Nat) : Option Disk :=
  if g.clusterIsData cluster = false then none
  else if value ≠ 0 ∧ value < clusterEnd ∧ g.clusterIsData value = false then none
  else some { disk with fat := g.setEntry disk.fat cluster value }

/-- A cluster is filled with zeros. -/
def zeroCluster (disk : Disk) (cluster : Nat) : Disk :=
  { disk with data := Function.update disk.data cluster fun _ => 0 }

/-- The loop of `fat32_alloc_cluster`. -/
def allocFrom (disk : Disk) : Nat → Nat → Option (Nat × Disk)
  | _, 0 => none
  | cluster, rest + 1 =>
    match g.nextCluster disk cluster with
    | none => none
    | some value =>
      if value ≠ 0 then allocFrom disk (cluster + 1) rest
      else (g.writeFatEntry disk cluster clusterEnd).map fun disk =>
        (cluster, zeroCluster disk cluster)

/-- The first free cluster, marked as the end of a chain. -/
def allocCluster (disk : Disk) : Option (Nat × Disk) := g.allocFrom disk 2 g.clusterCount

/-- The loop of `fat32_free_cluster_chain`. Each round frees a cluster, so that there
are not more rounds than clusters besides one that finds a free one. -/
def freeLoop (disk : Disk) (cluster : Nat) : Nat → Bool × Disk
  | 0 => (false, disk)
  | rounds + 1 =>
    match g.nextCluster disk cluster with
    | none => (false, disk)
    | some next =>
      match g.writeFatEntry disk cluster 0 with
      | none => (false, disk)
      | some disk =>
        if clusterEnd ≤ next then (true, disk)
        else if g.clusterIsData next = false then (false, disk)
        else freeLoop disk next rounds

/-- The clusters of a chain become free, one after the other. -/
def freeClusterChain (disk : Disk) (first : Nat) : Bool × Disk :=
  if g.clusterIsData first = false then (false, disk)
  else g.freeLoop disk first (g.clusterCount + 1)

/-! ## Directories -/

/-- The clusters that a scan goes over. A scan that comes to more clusters than there
are goes round in circles; on such a volume it does not end, and the list is cut off. -/
def walk (disk : Disk) : Nat → Nat → List Nat
  | 0, _ => []
  | fuel + 1, cluster =>
    if g.clusterIsData cluster = false then []
    else
      cluster :: match g.nextCluster disk cluster with
        | none => []
        | some next => walk disk fuel next

/-- `fat32_dir_first_cluster`: a directory without a cluster is the root directory. -/
def dirFirstCluster (first : Nat) : Nat := if g.clusterIsData first then first else g.rootCluster

/-- The clusters of a directory. -/
def dirClusters (disk : Disk) (first : Nat) : List Nat :=
  g.walk disk g.clusterCount (g.dirFirstCluster first)

/-- A slot of a cluster. -/
def slotAt (disk : Disk) (place : Nat × Nat) : Slot :=
  fun b => if b < 32 then disk.data place.1 (32 * place.2 + b) else 0

def clusterSlots (disk : Disk) (cluster : Nat) : List Slot :=
  (List.range g.slotsPerCluster).map fun i => slotAt disk (cluster, i)

/-- The slots of a directory. -/
def dirSlots (disk : Disk) (first : Nat) : List Slot :=
  (g.dirClusters disk first).flatMap (g.clusterSlots disk)

/-- `fat32_raw_entry_position`, with the number of a cluster and of a slot in it for a
place on the device. -/
def rawEntryPosition (disk : Disk) (first index : Nat) : Option (Nat × Nat) :=
  (g.dirClusters disk first)[index / g.slotsPerCluster]?.map fun cluster =>
    (cluster, index % g.slotsPerCluster)

def writeSlot (disk : Disk) (place : Nat × Nat) (slot : Slot) : Disk :=
  { disk with data := Function.update disk.data place.1 fun b =>
      if 32 * place.2 ≤ b ∧ b < 32 * place.2 + 32 then slot (b - 32 * place.2)
      else disk.data place.1 b }

/-- The loop of `fat32_append_directory_cluster` that goes to the last cluster. -/
def lastCluster (disk : Disk) : Nat → Nat → Option Nat
  | 0, _ => none
  | fuel + 1, cluster =>
    match g.nextCluster disk cluster with
    | none => none
    | some next =>
      if clusterEnd ≤ next then some cluster
      else if g.clusterIsData next = false then none
      else lastCluster disk fuel next

/-- A cluster is linked behind the last one. -/
def appendFileCluster (disk : Disk) (cluster : Nat) : Option Nat × Disk :=
  if g.clusterIsData cluster = false then (none, disk)
  else
    match g.allocCluster disk with
    | none => (none, disk)
    | some (new, disk) =>
      match g.writeFatEntry disk cluster new with
      | none => (none, (g.writeFatEntry disk new 0).getD disk)
      | some disk => (some new, disk)

/-- A directory grows by one cluster. -/
def appendDirectoryCluster (disk : Disk) (first : Nat) : Bool × Disk :=
  match g.lastCluster disk g.clusterCount (g.dirFirstCluster first) with
  | none => (false, disk)
  | some last =>
    let (new, disk) := g.appendFileCluster disk last
    (new.isSome, disk)

/-- A file with the place of its entry. The root directory has none. -/
structure Node where
  file : File
  place : Option (Nat × Nat)

end Geometry

def File.isDir (file : File) : Bool := file.attributes &&& attrDirectory ≠ 0

namespace Geometry

variable (g : Geometry)

/-- The root directory, which has no entry. -/
def getRootDir : Node :=
  ⟨{ name := [slash]
     firstCluster := g.rootCluster
     size := 0
     attributes := attrDirectory
     lfnEntryCount := 0
     direntIndex := 0 }, none⟩

/-- A lookup, with the place of the entry. -/
def findIn (disk : Disk) (dir : Node) (name : Name) : Option Node :=
  if dir.file.isDir = false then none
  else (findInDirectory (g.dirSlots disk dir.file.firstCluster) name).map fun file =>
    ⟨file, g.rawEntryPosition disk dir.file.firstCluster file.direntIndex⟩

/-- The new slots are written one by one from the first free one on. -/
def writeSlotsFrom (disk : Disk) (first : Nat) : Nat → List Slot → Disk
  | _, [] => disk
  | index, slot :: rest =>
    let disk := match g.rawEntryPosition disk first index with
      | none => disk
      | some place => writeSlot disk place slot
    writeSlotsFrom disk first (index + 1) rest

/-- An entry is put into a directory, which grows for it if need be. -/
def createEntry (disk : Disk) (dir : Node) (name : Name) (attributes : UInt8) (cluster : Nat) :
    Option Node × Disk :=
  let first := dir.file.firstCluster
  match planEntry (g.dirSlots disk first) name with
  | none => (none, disk)
  | some (raw, lfnCount) =>
    let put := fun (disk : Disk) (start : Nat) =>
      let file := createdFile name raw lfnCount attributes cluster start
      (some ⟨file, g.rawEntryPosition disk first file.direntIndex⟩,
        g.writeSlotsFrom disk first start (entrySlots name raw lfnCount attributes cluster))
    match locateFreeDirentSpan (g.dirSlots disk first) (lfnCount + 1) with
    | some start => put disk start
    | none =>
      match g.appendDirectoryCluster disk first with
      | (false, disk) => (none, disk)
      | (true, disk) =>
        match locateFreeDirentSpan (g.dirSlots disk first) (lfnCount + 1) with
        | some start => put disk start
        | none => (none, disk)

/-- The loop of `fat32_delete_entry_chain`. -/
def deleteDirents (disk : Disk) (first : Nat) (isEntry : Bool) : Nat → Nat → Bool × Disk
  | _, 0 => (true, disk)
  | index, count + 1 =>
    match g.rawEntryPosition disk first index with
    | none => (false, disk)
    | some place =>
      let disk := writeSlot disk place (deletedSlot isEntry (slotAt disk place))
      match index, count with
      | _, 0 => (true, disk)
      | 0, _ + 1 => (false, disk)
      | index + 1, count + 1 => deleteDirents disk first false index (count + 1)

/-- The slots of an entry are marked as deleted. -/
def deleteEntry (disk : Disk) (dir node : Node) : Bool × Disk :=
  g.deleteDirents disk dir.file.firstCluster true node.file.direntIndex
    (node.file.lfnEntryCount + 1)

/-- The two dot entries of a new directory. -/
def initDirectoryCluster (disk : Disk) (self parent : Nat) : Option Disk :=
  if g.clusterIsData self = false then none
  else
    let disk := writeSlot disk (self, 0) (shortDirent (pad 11 [dot]) attrDirectory self)
    some (writeSlot disk (self, 1) (shortDirent (pad 11 [dot, dot]) attrDirectory
      (g.dirFirstCluster parent)))

/-- The slot of an entry after `fat32_update_dirent`. -/
def updatedSlot (slot : Slot) (file : File) : Slot := fun b =>
    if b = 11 then file.attributes
    else if b = 28 then UInt8.ofNat file.size
    else if b = 29 then UInt8.ofNat (file.size / 256)
    else if b = 30 then UInt8.ofNat (file.size / 65536)
    else if b = 31 then UInt8.ofNat (file.size / 16777216)
    else setDirentCluster slot file.firstCluster b

/-- Size and first cluster of a file go to its entry. -/
def updateDirent (disk : Disk) (node : Node) : Option Disk :=
  node.place.map fun place => writeSlot disk place (updatedSlot (slotAt disk place) node.file)

/-! ## Paths -/

/-- What `fat32_path_next_segment` finds at the start of a path. -/
inductive Segment where
  | none
  | tooLong
  | found (segment rest : Name)

/-- The next name of a path and what follows it. -/
def pathNextSegment (path : Name) : Segment :=
  let path := path.dropWhile fun ch => decide (ch = slash)
  if path = [] then .none
  else
    let segment := path.takeWhile fun ch => decide (ch ≠ slash)
    if nameBufferSize ≤ segment.length then .tooLong
    else .found segment ((path.drop segment.length).dropWhile fun ch => decide (ch = slash))

/-- The loop of `fat32_find_path`. Each round takes a segment off the path. -/
def findPathFrom (disk : Disk) : Nat → Node → Name → Option Node
  | 0, _, _ => none
  | rounds + 1, current, path =>
    match pathNextSegment path with
    | .none => some current
    | .tooLong => none
    | .found segment rest =>
      match g.findIn disk current segment with
      | none => none
      | some node =>
        if rest = [] then some node
        else if node.file.isDir = false then none
        else findPathFrom disk rounds node rest

/-- The file at a path; the empty path is the root. -/
def findPath (disk : Disk) (path : Name) : Option Node :=
  let path := path.dropWhile fun ch => decide (ch = slash)
  if path = [] then some g.getRootDir else g.findPathFrom disk path.length g.getRootDir path

/-- The size of a buffer for a path. -/
def pathBufferSize : Nat := 256

/-- The last name of a path and the path before it. -/
def splitParentChildPath (path : Name) : Option (Name × Name) :=
  let text := (path.reverse.dropWhile fun ch => decide (ch = slash)).reverse
  let name := (text.reverse.takeWhile fun ch => decide (ch ≠ slash)).reverse
  let parent := text.take (text.length - (name.length + 1))
  if text = [] then none
  else if slash ∉ text then
    if nameBufferSize < name.length + 1 then none else some ([], name)
  else if name = [] ∨ pathBufferSize < parent.length + 1 ∨
    nameBufferSize < name.length + 1 then none
  else some (parent, name)

/-- The directory that a path's last name is in. -/
def findParent (disk : Disk) (parent : Name) : Option Node :=
  if parent = [] then some g.getRootDir
  else
    match g.findPath disk parent with
    | none => none
    | some dir => if dir.file.isDir = false then none else some dir

/-- An empty file at a path. -/
def createPath (disk : Disk) (path : Name) : Option Node × Disk :=
  match splitParentChildPath path with
  | none => (none, disk)
  | some (parent, name) =>
    if isRefusedName name then (none, disk)
    else
      match g.findParent disk parent with
      | none => (none, disk)
      | some dir =>
        if (g.findIn disk dir name).isSome then (none, disk)
        else g.createEntry disk dir name 0 0

/-- A directory at a path, with a cluster of its own. -/
def mkdirPath (disk : Disk) (path : Name) : Option Node × Disk :=
  match splitParentChildPath path with
  | none => (none, disk)
  | some (parent, name) =>
    if isRefusedName name then (none, disk)
    else
      match g.findParent disk parent with
      | none => (none, disk)
      | some dir =>
        if (g.findIn disk dir name).isSome then (none, disk)
        else
          match g.allocCluster disk with
          | none => (none, disk)
          | some (cluster, disk) =>
            match g.initDirectoryCluster disk cluster (g.dirFirstCluster dir.file.firstCluster) with
            | none => (none, (g.freeClusterChain disk cluster).2)
            | some disk =>
              match g.createEntry disk dir name attrDirectory cluster with
              | (none, disk) => (none, (g.freeClusterChain disk cluster).2)
              | (some node, disk) => (some node, disk)

/-- The end of `fat32_rmdir_path` and `fat32_unlink_path`, after the chain was freed. -/
def deletePath (disk : Disk) (path : Name) (node : Node) : Bool × Disk :=
  match splitParentChildPath path with
  | none => (false, disk)
  | some (parent, _) =>
    match g.findParent disk parent with
    | none => (false, disk)
    | some dir => g.deleteEntry disk dir node

/-- An empty directory is removed. -/
def rmdirPath (disk : Disk) (path : Name) : Bool × Disk :=
  match g.findPath disk path with
  | none => (false, disk)
  | some node =>
    if node.file.isDir = false ∨ node.place = none then (false, disk)
    else if isDirectoryEmpty (g.dirSlots disk node.file.firstCluster) = false then (false, disk)
    else
      match g.freeClusterChain disk node.file.firstCluster with
      | (false, disk) => (false, disk)
      | (true, disk) => g.deletePath disk path node

/-- A file and its clusters are removed. -/
def unlinkPath (disk : Disk) (path : Name) : Bool × Disk :=
  match g.findPath disk path with
  | none => (false, disk)
  | some node =>
    if node.file.isDir = true ∨ node.place = none then (false, disk)
    else if g.clusterIsData node.file.firstCluster then
      match g.freeClusterChain disk node.file.firstCluster with
      | (false, disk) => (false, disk)
      | (true, disk) => g.deletePath disk path node
    else g.deletePath disk path node

/-! ## Writing -/

/-- A file without a cluster gets its first one. -/
def ensureFileFirstCluster (disk : Disk) (node : Node) : Option Node × Disk :=
  if g.clusterIsData node.file.firstCluster then (some node, disk)
  else if node.file.size ≠ 0 ∨ node.file.firstCluster ≠ 0 then (none, disk)
  else
    match g.allocCluster disk with
    | none => (none, disk)
    | some (new, disk) =>
      let node := { node with file := { node.file with firstCluster := new } }
      match updateDirent disk node with
      | none => (none, (g.freeClusterChain disk new).2)
      | some disk => (some node, disk)

/-- `fat32_calc_sector_window`: where copying starts, and how much is copied. -/
def calcSectorWindow (sectorStart sectorEnd dataLimit offset requestEnd : Nat) :
    Option (Nat × Nat) :=
  if dataLimit ≤ sectorStart then none
  else
    let sectorEnd := min sectorEnd dataLimit
    if sectorEnd ≤ offset then none
    else
      let copyStart := max offset sectorStart
      let copyEnd := min sectorEnd requestEnd
      if copyEnd ≤ copyStart then none else some (copyStart, copyEnd - copyStart)

/-- Bytes within a cluster. -/
def writeBytes (disk : Disk) (cluster start count : Nat) (bytes : Nat → UInt8) : Disk :=
  { disk with data := Function.update disk.data cluster fun b =>
      if start ≤ b ∧ b < start + count then bytes (b - start) else disk.data cluster b }

/-- What a write keeps track of. The counters are of 32 bits. -/
structure Progress where
  disk : Disk
  fileOffset : Nat
  written : Nat

/-- The request of a write. -/
structure Request where
  offset : Nat
  buffer : List UInt8
  limit : Nat

/-- The sectors of one cluster. -/
def writeSectors (request : Request) (cluster : Nat) : Nat → Nat → Progress → Progress
  | _, 0, progress => progress
  | sec, rest + 1, progress =>
    if progress.fileOffset < request.limit then
      let sectorStart := progress.fileOffset
      let next := (sectorStart + 512) % 2 ^ 32
      match calcSectorWindow sectorStart next request.limit request.offset request.limit with
      | none => writeSectors request cluster (sec + 1) rest { progress with fileOffset := next }
      | some (copyStart, copySize) =>
        writeSectors request cluster (sec + 1) rest
          { disk := writeBytes progress.disk cluster
              (512 * sec + (copyStart - sectorStart)) copySize
              fun k => request.buffer.getD (progress.written + k) 0
            fileOffset := next
            written := (progress.written + copySize) % 2 ^ 32 }
    else progress

/-- How the loop over the clusters of a file ends. -/
inductive WriteEnd where
  | done (written : Nat)
  | failed
  | running

/-- The clusters of a write, one after the other. -/
def writeClusters (request : Request) : Nat → Nat → Progress → WriteEnd × Disk
  | 0, _, progress => (.running, progress.disk)
  | rounds + 1, cluster, progress =>
    if g.clusterIsData cluster = false ∨ request.limit ≤ progress.fileOffset then
      (.done progress.written, progress.disk)
    else
      let progress := writeSectors request cluster 0 g.sectorsPerCluster progress
      if request.buffer.length ≤ progress.written ∨ request.limit ≤ progress.fileOffset then
        (.done progress.written, progress.disk)
      else
        match g.nextCluster progress.disk cluster with
        | none => (.failed, progress.disk)
        | some next =>
          if clusterEnd ≤ next then
            match g.appendFileCluster progress.disk cluster with
            | (none, disk) => (.failed, disk)
            | (some new, disk) =>
              if g.clusterIsData new = false then (.failed, disk)
              else writeClusters request rounds new { progress with disk := disk }
          else if g.clusterIsData next = false then (.failed, progress.disk)
          else writeClusters request rounds next progress

/-- `fat32_write_file_range`, for a buffer of less than `2 ^ 32` bytes. -/
def writeFileRange (disk : Disk) (node : Node) (offset : Nat) (buffer : List UInt8) :
    WriteEnd × Disk :=
  if node.file.isDir = true ∨ node.file.size < offset then (.failed, disk)
  else if buffer = [] then (.done 0, disk)
  else
    match g.ensureFileFirstCluster disk node with
    | (none, disk) => (.failed, disk)
    | (some node, disk) =>
      let limit := (offset + buffer.length) % 2 ^ 32
      if limit < offset then (.failed, disk)
      else
        match g.writeClusters ⟨offset, buffer, limit⟩ (g.clusterCount + 1) node.file.firstCluster
            ⟨disk, 0, 0⟩ with
        | (.done written, disk) =>
          let size := (offset + written) % 2 ^ 32
          if node.file.size < size then
            match updateDirent disk { node with file := { node.file with size := size } } with
            | none => (.failed, disk)
            | some disk => (.done written, disk)
          else (.done written, disk)
        | (.failed, disk) => (.failed, disk)
        | (.running, disk) => (.running, disk)

/-- A write to the file at a path. -/
def writePath (disk : Disk) (path : Name) (offset : Nat) (buffer : List UInt8) : WriteEnd × Disk :=
  match g.findPath disk path with
  | none => (.failed, disk)
  | some node => g.writeFileRange disk node offset buffer

end Geometry

end NexOS.Fat32
