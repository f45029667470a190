import NexOS.Fat32.RoundTrip
import NexOS.Fat32.Sectors
import NexOS.Lib.Fuelled

/-! # Traversals without a bound

The chains of a volume come from the device, and nothing says that they end. Here the
loops that follow chains are taken as they are, without the bound that a chain which ends
gives them. A scan of a directory goes from cluster to cluster and over the slots of each,
until a slot ends it, the chain ends, or a link is broken.
-/

namespace NexOS.Fat32.Traversal

open Fuelled NexOS.Fat32.Geometry List Nat ChainTable

/-- A slot with its place. -/
abbrev Placed : Type := (Nat × Nat) × Slot

variable (g : Geometry) (d : Disk)

/-- The slots of a cluster with their places. -/
def placedSlots (cluster : Nat) : List Placed :=
  (List.range g.slotsPerCluster).map fun i => ((cluster, i), slotAt d (cluster, i))

section Scan

variable {S R : Type}

/-- The slots one after the other, until one ends the scan. -/
def scanSlots (step : S → Placed → R ⊕ S) : S → List Placed → R ⊕ S
  | s, [] => .inr s
  | s, slot :: rest =>
    match step s slot with
    | .inl r => .inl r
    | .inr s' => scanSlots step s' rest

/-- What a scan over all the slots gives. -/
def outcome (step : S → Placed → R ⊕ S) (atEnd : S → R) (s : S) (slots : List Placed) : R :=
  match scanSlots step s slots with
  | .inl r => r
  | .inr s' => atEnd s'

/-- One cluster of a directory, and the step to the next one. -/
def scanCluster (step : S → Placed → R ⊕ S) (atEnd : S → R) (broken : R) : Nat × S → R ⊕ (Nat × S)
  | (cluster, s) =>
    if g.clusterIsData cluster = false then .inl (atEnd s)
    else
      match scanSlots step s (placedSlots g d cluster) with
      | .inl r => .inl r
      | .inr s' =>
        match g.nextCluster d cluster with
        | none => .inl broken
        | some next => .inr (next, s')

/-- A scan of a directory from its first cluster. -/
def scan (first : Nat) (step : S → Placed → R ⊕ S) (start : S) (atEnd : S → R) (broken : R) :
    Fuelled R :=
  loop (scanCluster g d step atEnd broken) (g.dirFirstCluster first, start)

end Scan

/-! ## Lookup -/

/-- What a scan carries along. -/
structure Reader where
  state : LfnState := {}
  index : Nat := 0

/-- A slot that breaks off a long name. -/
def Reader.skip (reader : Reader) : Reader := ⟨{}, reader.index + 1⟩

def Reader.capture (reader : Reader) (slot : Slot) : Reader :=
  ⟨lfnCapture reader.state slot, reader.index + 1⟩

/-- The entry at a slot, with its place. -/
def Reader.fill (reader : Reader) (slot : Placed) : Option Node :=
  (fillFileFromDirent slot.2 reader.state reader.index).map fun file => ⟨file, some slot.1⟩

/-- What a lookup does with a slot. -/
def findStep (name : Name) (reader : Reader) (slot : Placed) : Option Node ⊕ Reader :=
  if slot.2.isEnd then .inl none
  else if slot.2.isDeleted then .inr reader.skip
  else if slot.2.isLfn then .inr (reader.capture slot.2)
  else if slot.2.isVolume then .inr reader.skip
  else if matchDirentName slot.2 reader.state name then .inl (reader.fill slot)
  else .inr reader.skip

/-- The lookup as a loop over clusters and their slots. -/
def findInDirectory (dir : Node) (name : Name) : Fuelled (Option Node) :=
  if dir.file.isDir = false then pure none
  else scan g d dir.file.firstCluster (findStep name) {} (fun _ => none) none

/-! ## Listing -/

/-- What the listing does with a slot. An entry without room for it is passed over. -/
def listStep (maxEntries : Nat) : Reader × List Node → Placed →
    Option (List Node) ⊕ (Reader × List Node)
  | (reader, found), slot =>
    if slot.2.isEnd then .inl (some found)
    else if slot.2.isDeleted then .inr (reader.skip, found)
    else if slot.2.isLfn then .inr (reader.capture slot.2, found)
    else if slot.2.isVolume then .inr (reader.skip, found)
    else if found.length < maxEntries then .inr (reader.skip, found ++ (reader.fill slot).toList)
    else .inr (reader.skip, found)

/-- The first entries of a directory, as a loop over clusters and their slots. -/
def listDirectory (dir : Node) (maxEntries : Nat) :
    Fuelled (Option (List Node)) :=
  if dir.file.isDir = false then pure none
  else scan g d dir.file.firstCluster (listStep maxEntries) ({}, []) (fun s => some s.2) none

/-- What the search for the entry with a number does with a slot. -/
def getStep (index : Nat) : Reader × Nat → Placed → Option Node ⊕ (Reader × Nat)
  | (reader, current), slot =>
    if slot.2.isEnd then .inl none
    else if slot.2.isDeleted then .inr (reader.skip, current)
    else if slot.2.isLfn then .inr (reader.capture slot.2, current)
    else
      match reader.fill slot with
      | none => .inr (reader.skip, current)
      | some node =>
        if current = index then .inl (some node) else .inr (reader.skip, current + 1)

/-- The entry with this number, as a loop over clusters and their slots. -/
def getDirEntry (dir : Node) (index : Nat) : Fuelled (Option Node) :=
  if dir.file.isDir = false then pure none
  else scan g d dir.file.firstCluster (getStep index) ({}, 0) (fun _ => none) none

/-! ## Scans -/

variable {g d} {cluster : Nat}

section Scan

variable {S R : Type} {step : S → Placed → R ⊕ S} {atEnd : S → R} {broken : R} {s : S}

lemma scanSlots_append (s : S) (front back : List Placed) : scanSlots step s (front ++ back) =
      match scanSlots step s front with
      | .inl r => .inl r
      | .inr s' => scanSlots step s' back := by
  induction front generalizing s with
  | nil => rfl
  | cons slot front ih =>
    rw [cons_append, scanSlots, scanSlots]
    cases step s slot with
    | inl r => rfl
    | inr s' => exact ih s'

/-- A scan of a chain gives what the slots of the chain give, one after the other. -/
lemma returns_of_chain {first : Nat} {cells : List Nat} (hchain : Chain (g.link d) first cells) :
    (loop (scanCluster g d step atEnd broken) (first, s)).Returns
      (outcome step atEnd s (cells.flatMap (placedSlots g d))) := by
  induction cells generalizing first s with
  | nil => cases hchain
  | cons cell rest ih =>
    obtain ⟨_, hfirst⟩ := hchain.exists_cons
    obtain ⟨rfl, -⟩ := cons.inj hfirst
    have hnot : ¬ g.clusterIsData cell = false := by simp [(low_of_chain hchain).1]
    obtain ⟨next, hnext, hrest⟩ := nextCluster_of_chain hchain
    rw [flatMap_cons, outcome, scanSlots_append]
    cases hslots : scanSlots step s (placedSlots g d cell) with
    | inl r => exact returns_loop_of_done (by rw [scanCluster, if_neg hnot, hslots])
    | inr s' =>
      rw [@returns_loop_of_step _ _ _ _ (next, s') _
        (by rw [scanCluster, if_neg hnot, hslots, hnext])]
      rcases hrest with ⟨rfl, hend⟩ | hrest
      · exact returns_loop_of_done (by rw [scanCluster, if_pos hend]; rfl)
      · exact ih hrest

lemma outcome_cons (slot : Placed) (rest : List Placed) : outcome step atEnd s (slot :: rest) =
      match step s slot with
      | .inl r => r
      | .inr s' => outcome step atEnd s' rest := by
  rw [outcome, scanSlots]
  cases step s slot <;> rfl

end Scan

/-! ## Directories whose chain ends -/

lemma map_placedSlots (cells : List Nat) :
    (cells.flatMap (placedSlots g d)).map Prod.snd = cells.flatMap (g.clusterSlots d) := by
  rw [map_flatMap]
  refine flatMap_congr fun c _ => ?_
  rw [placedSlots, map_map]
  rfl

lemma findSlots_eq (name : Name) (reader : Reader) (slots : List Placed) :
    (outcome (findStep name) (fun _ => none) reader slots).map Node.file =
      findFrom reader.state reader.index name (slots.map Prod.snd) := by
  induction slots generalizing reader with
  | nil => rfl
  | cons slot rest ih =>
    rw [map_cons, outcome_cons, findFrom, findStep]
    split_ifs
    · rfl
    · exact ih reader.skip
    · exact ih (reader.capture slot.2)
    · exact ih reader.skip
    · simp only [Reader.fill, Option.map_map]
      exact Option.map_id'
    · exact ih reader.skip

/-- The slots of a directory are those of its chain. -/
lemma dirSlots_of_chain {first : Nat} {cells : List Nat}
    (hchain : Chain (g.link d) (g.dirFirstCluster first) cells) :
    g.dirSlots d first = (cells.flatMap (placedSlots g d)).map Prod.snd := by
  rw [dirSlots, dirClusters, walk_of_chain hchain (length_chain_le hchain), map_placedSlots]

/-- On a directory whose chain ends, the scan finds what is found in the list of its slots. -/
theorem findInDirectory_of_chain {dir : Node} {cells : List Nat} (name : Name)
    (hchain : Chain (g.link d) (g.dirFirstCluster dir.file.firstCluster) cells) :
    ∃ found, (findInDirectory g d dir name).Returns found ∧
      found.map Node.file = (g.findIn d dir name).map Node.file := by
  rw [findIn]
  cases hdir : dir.file.isDir with
  | false =>
    rw [findInDirectory, if_pos hdir]
    exact ⟨none, returns_pure _, rfl⟩
  | true =>
    rw [findInDirectory, if_neg (by simp [hdir]), if_neg (by simp)]
    refine ⟨_, returns_of_chain hchain, ?_⟩
    rw [dirSlots_of_chain hchain, Option.map_map, Function.comp_def, Option.map_id',
      Fat32.findInDirectory]
    exact findSlots_eq name {} _

/-- A root directory of two clusters, where the long name is in the last slot of the first cluster
and its entry in the first slot of the second one. -/
def wideRoot : Disk where
  fat _ cluster := if cluster = 2 then 3 else if cluster = 3 then clusterEnd else 0
  data cluster b := (List.replicate 15 (fun _ => 0xe5) ++
    entrySlots longName.text (makeShortAlias longName.text 0) 1 0 0).getD
      (16 * (cluster - 2) + b / 32) Slot.zero (b % 32)

/-- The entry is found across the border of two clusters. -/
theorem findInDirectory_of_root : ∃ found,
    (findInDirectory small wideRoot small.getRootDir longName.text).Returns (some found) ∧
      found.file.name = longName.text ∧ found.file.direntIndex = 16 := by
  obtain ⟨found, hreturns, hsame⟩ := @findInDirectory_of_chain small wideRoot small.getRootDir
    [2, 3] longName.text (.next (by decide) (.last (by decide)))
  have hfound : ((small.findIn wideRoot small.getRootDir longName.text).map Node.file).map
      (fun file => (file.name, file.direntIndex)) = some (longName.text, 16) := by
    decide +kernel
  rw [← hsame, Option.map_map, Option.map_eq_some_iff] at hfound
  obtain ⟨node, rfl, hnode⟩ := hfound
  exact ⟨node, hreturns, congrArg Prod.fst hnode, congrArg Prod.snd hnode⟩

end NexOS.Fat32.Traversal
