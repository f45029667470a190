import NexOS.Fat32.Names

/-! # Directories

A directory is a row of slots of 32 bytes. A slot is free, holds an entry with a
short name, or holds a piece of the long name of the entry after it. A first byte
of zero ends the directory.
-/

namespace NexOS.Fat32

/-- The size of a buffer for a name, with its zero byte. -/
def nameBufferSize : Nat := 256

/-- The bytes of a slot by their offset. There are 32 of them, with zeros after them. -/
abbrev Slot : Type := Nat → UInt8

namespace Slot

def zero : Slot := fun _ => 0

/-- A number of 16 bits, low byte first. -/
def word (slot : Slot) (offset : Nat) : Nat := (slot offset).toNat + 256 * (slot (offset + 1)).toNat

/-- The slot ends the directory. -/
def isEnd (slot : Slot) : Bool := slot 0 = 0

/-- The slot is marked as deleted. -/
def isDeleted (slot : Slot) : Bool := slot 0 = 0xe5

def attr (slot : Slot) : UInt8 := slot 11

/-- The slot is a piece of a long name. -/
def isLfn (slot : Slot) : Bool := slot.attr = 0x0f

/-- The slot names the volume. -/
def isVolume (slot : Slot) : Bool := slot.attr &&& 0x08 ≠ 0

/-- The slot can be taken by another entry. -/
def isFree (slot : Slot) : Bool := slot.isEnd || slot.isDeleted

/-- The eleven bytes of the short name. -/
def rawName (slot : Slot) : List UInt8 := (List.range 11).map slot

/-- The cluster is kept in two halves. -/
def firstCluster (slot : Slot) : Nat := slot.word 20 * 65536 + slot.word 26

def fileSize (slot : Slot) : Nat := slot.word 28 + 65536 * slot.word 30

/-- Where the characters of a piece of a long name are. -/
def lfnOffset (i : Nat) : Nat :=
  if i < 5 then 1 + 2 * i else if i < 11 then 14 + 2 * (i - 5) else 28 + 2 * (i - 11)

def lfnChar (slot : Slot) (i : Nat) : Nat := slot.word (lfnOffset i)

end Slot

def attrDirectory : UInt8 := 0x10

/-! ## Long names -/

/-- What was read of a long name. The pieces come last one first. -/
structure LfnState where
  name : Nat → UInt8 := fun _ => 0
  valid : Bool := false
  checksum : UInt8 := 0
  nextOrder : Nat := 0
  totalEntries : Nat := 0

/-- One character of a long name, if the buffer has room for it. -/
def lfnAppendChar (dst : Nat → UInt8) (index value : Nat) : Option (Nat → UInt8) :=
  if nameBufferSize ≤ index + 1 then none
  else
    let ch : UInt8 := if value = 0 ∨ value = 0xffff then 0
      else if value < 256 then UInt8.ofNat value else 0x3f
    some (Function.update dst index ch)

/-- The thirteen characters of a piece go to their places in the buffer. -/
def lfnAppendPiece (dst : Nat → UInt8) (base : Nat) (slot : Slot) : Nat → Option (Nat → UInt8)
  | 0 => some dst
  | count + 1 => (lfnAppendPiece dst base slot count).bind fun dst =>
    lfnAppendChar dst (base + count) (slot.lfnChar count)

/-- A piece is taken into the name collected so far. -/
def lfnCapture (state : LfnState) (slot : Slot) : LfnState :=
  let order := (slot 0 &&& 0x1f).toNat
  if slot.isLfn = false ∨ order = 0 ∨ 20 < order ∨ slot 12 ≠ 0 then {}
  else
    let state : LfnState := if slot 0 &&& 0x40 ≠ 0 then
        { valid := true, checksum := slot 13, nextOrder := order, totalEntries := order }
      else state
    if state.valid = false ∨ state.checksum ≠ slot 13 ∨ state.nextOrder ≠ order then {}
    else
      match lfnAppendPiece state.name ((order - 1) * 13) slot 13 with
      | none => {}
      | some name => { state with name := name, nextOrder := state.nextOrder - 1 }

/-- The string in a name buffer. -/
def bufferText (buffer : Nat → UInt8) : Name :=
  ((List.range nameBufferSize).map buffer).takeWhile fun ch => decide (ch ≠ 0)

/-- All the pieces of a long name were seen. -/
def LfnState.Ready (state : LfnState) : Prop :=
  state.valid = true ∧ state.nextOrder = 0 ∧ state.name 0 ≠ 0

instance (state : LfnState) : Decidable state.Ready := by unfold LfnState.Ready; infer_instance

/-! ## Entries -/

/-- What a lookup reports of an entry. The index is that of its slot. -/
structure File where
  name : Name
  firstCluster : Nat
  size : Nat
  attributes : UInt8
  lfnEntryCount : Nat
  direntIndex : Nat
  deriving DecidableEq

/-- The file of an entry, under its long name if it has one. -/
def fillFileFromDirent (slot : Slot) (state : LfnState) (index : Nat) : Option File :=
  if slot.isEnd || slot.isDeleted || slot.isLfn || slot.isVolume then none
  else
    let long := state.Ready ∧ state.checksum = shortNameChecksum slot.rawName
    some
      { name := if long then bufferText state.name else formatName83 slot.rawName
        firstCluster := slot.firstCluster
        size := slot.fileSize
        attributes := slot.attr
        lfnEntryCount := if long then state.totalEntries else 0
        direntIndex := index }

/-- A name is found under its long and under its short form. -/
def matchDirentName (slot : Slot) (state : LfnState) (input : Name) : Bool :=
  match fillFileFromDirent slot state 0 with
  | none => false
  | some file => sameName file.name input || sameName (formatName83 slot.rawName) input

/-- The loop of `fat32_find_in_directory` over the slots of the directory. -/
def findFrom (state : LfnState) (index : Nat) (name : Name) : List Slot → Option File
  | [] => none
  | slot :: rest =>
    if slot.isEnd then none
    else if slot.isDeleted then findFrom {} (index + 1) name rest
    else if slot.isLfn then findFrom (lfnCapture state slot) (index + 1) name rest
    else if slot.isVolume then findFrom {} (index + 1) name rest
    else if matchDirentName slot state name then fillFileFromDirent slot state index
    else findFrom {} (index + 1) name rest

/-- The first entry that has the name. -/
def findInDirectory (slots : List Slot) (name : Name) : Option File := findFrom {} 0 name slots

/-- The loop of `fat32_get_dir_entry`, which counts entries up to the one asked for. -/
def getDirEntryFrom (state : LfnState) (rawIndex current index : Nat) : List Slot → Option File
  | [] => none
  | slot :: rest =>
    if slot.isEnd then none
    else if slot.isDeleted then getDirEntryFrom {} (rawIndex + 1) current index rest
    else if slot.isLfn then
      getDirEntryFrom (lfnCapture state slot) (rawIndex + 1) current index rest
    else
      match fillFileFromDirent slot state rawIndex with
      | none => getDirEntryFrom {} (rawIndex + 1) current index rest
      | some file =>
        if current = index then some file
        else getDirEntryFrom {} (rawIndex + 1) (current + 1) index rest

/-- The entry with this number. -/
def getDirEntry (slots : List Slot) (index : Nat) : Option File :=
  getDirEntryFrom {} 0 0 index slots

def isDotName (name : Name) : Bool := name = [dot] ∨ name = [dot, dot]

/-- The loop of `fat32_is_directory_empty`, which ends at the latest after as many
entries as there are slots. -/
def isEmptyFrom (slots : List Slot) (index : Nat) : Nat → Bool
  | 0 => true
  | fuel + 1 =>
    match getDirEntry slots index with
    | none => true
    | some file => if isDotName file.name then isEmptyFrom slots (index + 1) fuel else false

/-- No entry but the dot entries. -/
def isDirectoryEmpty (slots : List Slot) : Bool := isEmptyFrom slots 0 (slots.length + 1)

/-! ## Creation -/

/-- Thirteen characters to a slot. -/
def lfnEntryCountForName (name : Name) : Nat := if name = [] then 0 else (name.length + 12) / 13

/-- A live entry has this short name. -/
def shortNameExists (slots : List Slot) (raw : List UInt8) : Bool :=
  (slots.takeWhile fun slot => !slot.isEnd).any fun slot =>
    !slot.isDeleted && !slot.isLfn && !slot.isVolume && slot.rawName = raw

/-- The loop of `fat32_build_unique_short_name` over the serial numbers. -/
def uniqueShortNameFrom (slots : List Slot) (name : Name) (serial : Nat) : Nat → Option (List UInt8)
  | 0 => none
  | tries + 1 =>
    if shortNameExists slots (makeShortAlias name serial) then
      uniqueShortNameFrom slots name (serial + 1) tries
    else some (makeShortAlias name serial)

/-- The first alias that no entry has. -/
def buildUniqueShortName (slots : List Slot) (name : Name) : Option (List UInt8) :=
  uniqueShortNameFrom slots name 0 1000000

/-- The loop of `fat32_locate_free_dirent_span`: the first slot of a row of free ones. -/
def locateFrom (needed run index : Nat) : List Slot → Option Nat
  | [] => none
  | slot :: rest =>
    if slot.isFree then
      if needed ≤ run + 1 then some (index + 1 - needed)
      else locateFrom needed (run + 1) (index + 1) rest
    else locateFrom needed 0 (index + 1) rest

/-- The first row of free slots that is long enough. -/
def locateFreeDirentSpan (slots : List Slot) (needed : Nat) : Option Nat :=
  locateFrom needed 0 0 slots

/-- The character of a long name at a place, with the end and the fill after it. -/
def lfnValue (name : Name) (index : Nat) : Nat :=
  if index < name.length then (name.getD index 0).toNat
  else if index = name.length then 0 else 0xffff

/-- A byte of a character in a piece of the name. -/
def lfnByte (name : Name) (order i half : Nat) : UInt8 :=
  let value := lfnValue name ((order - 1) * 13 + i)
  if half = 0 then UInt8.ofNat value else UInt8.ofNat (value / 256)

/-- A piece of a long name as a slot. -/
def populateLfnDirent (name : Name) (totalEntries order : Nat) (checksum : UInt8) : Slot := fun b =>
    if b = 0 then UInt8.ofNat order ||| (if order = totalEntries then 0x40 else 0)
    else if b < 11 then lfnByte name order ((b - 1) / 2) ((b - 1) % 2)
    else if b = 11 then 0x0f
    else if b = 12 then 0
    else if b = 13 then checksum
    else if b < 26 then lfnByte name order (5 + (b - 14) / 2) ((b - 14) % 2)
    else if b < 28 then 0
    else if b < 32 then lfnByte name order (11 + (b - 28) / 2) ((b - 28) % 2)
    else 0

/-- The two halves of the first cluster. -/
def setDirentCluster (slot : Slot) (cluster : Nat) : Slot := fun b =>
    if b = 20 then UInt8.ofNat (cluster / 65536)
    else if b = 21 then UInt8.ofNat (cluster / 16777216)
    else if b = 26 then UInt8.ofNat cluster
    else if b = 27 then UInt8.ofNat (cluster / 256)
    else slot b

/-- The slot of a new entry. -/
def shortDirent (raw : List UInt8) (attributes : UInt8) (cluster : Nat) : Slot :=
  setDirentCluster
    (fun b => if b < 11 then raw.getD b 0 else if b = 11 then attributes else 0) cluster

/-- The short name and the number of pieces of a new entry. -/
def planEntry (slots : List Slot) (name : Name) : Option (List UInt8 × Nat) :=
  if (findInDirectory slots name).isSome then none
  else
    match buildUniqueShortName slots name with
    | none => none
    | some raw =>
      let lfnCount := if nameNeedsLfn name then lfnEntryCountForName name else 0
      if 20 < lfnCount then none else some (raw, lfnCount)

/-- The slots of an entry, the pieces of its long name last one first. -/
def entrySlots (name : Name) (raw : List UInt8) (lfnCount : Nat) (attributes : UInt8)
    (cluster : Nat) : List Slot :=
  (List.range lfnCount).map (fun i =>
    populateLfnDirent name lfnCount (lfnCount - i) (shortNameChecksum raw)) ++
    [shortDirent raw attributes cluster]

/-- What the creation of an entry returns. -/
def createdFile (name : Name) (raw : List UInt8) (lfnCount : Nat) (attributes : UInt8)
    (cluster start : Nat) : File :=
  { name := if lfnCount ≠ 0 then name else formatName83 raw
    firstCluster := cluster
    size := 0
    attributes := attributes
    lfnEntryCount := lfnCount
    direntIndex := start + lfnCount }

/-- A row of slots is written over the old ones. -/
def writeSlots (slots : List Slot) (start : Nat) (new : List Slot) : List Slot :=
  slots.take start ++ new ++ slots.drop (start + new.length)

/-! ## Deletion -/

/-- The mark of a deleted slot. The entry itself also loses its size and cluster. -/
def deletedSlot (isEntry : Bool) (slot : Slot) : Slot :=
  if isEntry then
    setDirentCluster (fun b => if b = 0 then 0xe5 else if 28 ≤ b then 0 else slot b) 0
  else fun b => if b = 0 then 0xe5 else slot b

/-- The loop of `fat32_delete_entry_chain`, from the entry back over its pieces. It
fails at a slot that is not there. -/
def deleteFrom (slots : List Slot) (isEntry : Bool) : Nat → Nat → Bool × List Slot
  | _, 0 => (true, slots)
  | index, count + 1 =>
    if index < slots.length then
      let slots := slots.modify index (deletedSlot isEntry)
      match index, count with
      | _, 0 => (true, slots)
      | 0, _ + 1 => (false, slots)
      | index + 1, count + 1 => deleteFrom slots false index (count + 1)
    else (false, slots)

/-- The short slot and the pieces before it are marked as deleted. -/
def deleteEntryChain (slots : List Slot) (file : File) : Bool × List Slot :=
  deleteFrom slots true file.direntIndex (file.lfnEntryCount + 1)

end NexOS.Fat32
