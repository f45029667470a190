import NexOS.Fat32.VolumeRemoval

/-! # Writing to files of a volume

A write allocates the first cluster of an empty file, goes over the clusters of the file,
appends clusters where the chain ends, and updates the entry of the file. The bytes go to
clusters of the file only, so that all directories stay as they are besides the entry.
-/

namespace NexOS.Fat32.Geometry

open List Option ChainTable

variable {g : Geometry} {d d' : Disk} {dir node : Node} {entry : Entry}
  {parent index first : Nat} {cells parents : List Nat} {slots front back : List Slot} {slot : Slot}

/-! ## Updating an entry -/

lemma attr_updatedSlot (slot : Slot) (file : File) :
    (updatedSlot slot file).attr = file.attributes :=
  rfl

lemma rawName_updatedSlot (slot : Slot) (file : File) :
    (updatedSlot slot file).rawName = slot.rawName := by
  refine map_congr_left fun b hb => ?_
  rw [mem_range] at hb
  simp (disch := omega) only [updatedSlot, setDirentCluster, if_neg]

lemma isEntry_updatedSlot {file : File} (hentry : slot.isEntry = true)
    (hattr : file.attributes = slot.attr) : (updatedSlot slot file).isEntry = true := by
  have hfirst : updatedSlot slot file 0 = slot 0 := rfl
  rw [Slot.isEntry_iff] at hentry ⊢
  simpa only [Slot.isEnd, Slot.isDeleted, Slot.isLfn, Slot.isVolume,
    attr_updatedSlot, hfirst, hattr] using hentry

lemma firstCluster_updatedSlot {file : File} (hlt : file.firstCluster < 2 ^ 32) :
    (updatedSlot slot file).firstCluster = file.firstCluster :=
  firstCluster_setDirentCluster slot hlt

lemma fileSize_updatedSlot (slot : Slot) (file : File) :
    (updatedSlot slot file).fileSize = file.size % 2 ^ 32 := by
  have hbytes : (updatedSlot slot file).fileSize =
      ((UInt8.ofNat file.size).toNat + 256 * (UInt8.ofNat (file.size / 256)).toNat) +
        65536 * ((UInt8.ofNat (file.size / 65536)).toNat +
          256 * (UInt8.ofNat (file.size / 16777216)).toNat) := rfl
  rw [hbytes]
  simp only [UInt8.toNat_ofNat']
  omega

lemma trimmed_updatedSlot (htrim : Trimmed slot) (file : File) :
    Trimmed (updatedSlot slot file) := by
  intro b hb
  simp (disch := omega) only [updatedSlot, setDirentCluster, if_neg, htrim b hb]

/-- An entry that a file was looked up with, in the slots of its directory. -/
structure EntryOfFile (g : Geometry) (disk : Disk) (parent : Nat) (node : Node) (entry : Entry)
    (front : List Slot) (slot : Slot) (back : List Slot) : Prop where
  at_slot : EntryAt {} 0 (g.dirSlots disk parent) entry front slot back
  notDot : entry.isDot = false
  attributes_eq : node.file.attributes = slot.attr
  place_eq : node.place = g.rawEntryPosition disk parent front.length

/-- The entry gets the cluster and the size of the file. -/
lemma EntryOfFile.updateDirent (hentry : EntryOfFile g d parent node entry front slot back)
    (hchain : Chain (g.link d) parent cells) (hclus : node.file.firstCluster < 2 ^ 32) :
    ∃ d' updated, Geometry.updateDirent d node = some d' ∧ Rewrites d cells d' ∧
      EntryOfFile g d' parent node updated front (updatedSlot slot node.file) back ∧
      updated.file.firstCluster = node.file.firstCluster ∧
      updated.file.attributes = node.file.attributes ∧
      updated.file.size = node.file.size % 2 ^ 32 ∧
      ∀ other, entryOf (g.dirSlots d' parent) other =
        if other = front.length then some updated else entryOf (g.dirSlots d parent) other := by
  have hat := hentry.at_slot
  have hlen : front.length < (g.dirSlots d parent).length := by
    rw [hat.slots_eq, length_append, length_cons]
    omega
  obtain ⟨place, hplace⟩ := exists_placeOf hchain hlen
  have hslot : slotAt d place = slot := by
    have hget := hplace.slot_eq
    rw [hat.slots_eq, getElem?_append_right le_rfl, Nat.sub_self, getElem?_cons_zero,
      Option.some.injEq] at hget
    exact hget.symm
  have htrim : Trimmed slot := hslot ▸ trimmed_slotAt d place
  have hslots := hplace.written _ (trimmed_updatedSlot htrim node.file)
  rw [hat.slots_eq, set_append_right _ _ le_rfl, Nat.sub_self] at hslots
  have hisEntry := isEntry_updatedSlot hat.isEntry hentry.attributes_eq
  have hupdated := hat.entryOf_updated hisEntry (rawName_updatedSlot slot node.file)
  have hrew := @rewrites_writeSlot d cells place hplace.mem (updatedSlot slot node.file)
  rw [firstCluster_updatedSlot hclus] at hupdated
  refine ⟨writeSlot d place (updatedSlot slot node.file), ⟨{ entry.file with
      firstCluster := node.file.firstCluster
      size := (updatedSlot slot node.file).fileSize
      attributes := node.file.attributes }, entry.raw⟩,
    ?_, hrew, ⟨⟨hslots, hat.front_not_isEnd, hisEntry, ?_⟩, hentry.notDot, rfl, ?_⟩, rfl, rfl,
    fileSize_updatedSlot slot node.file, ?_⟩
  · rw [Geometry.updateDirent, hentry.place_eq, hplace.position, map_some, hslot]
  · have hold := hat.entry_eq
    rw [entryAt, fillFile_of_isEntry hat.isEntry, map_some, Option.some.injEq] at hold
    rw [entryAt, fillFile_of_isEntry hisEntry, map_some, ← hold,
      firstCluster_updatedSlot hclus, attr_updatedSlot, rawName_updatedSlot]
  · rw [hentry.place_eq, rawEntryPosition, rawEntryPosition, dirClusters_of_chain hchain,
      dirClusters_of_chain (hrew.chain hchain)]
  · rw [hslots]
    exact hupdated

/-! ## The file during a write -/

/-- A file of a consistent volume with its chain. -/
structure FileAt (g : Geometry) (disk : Disk) (parent : Nat) (node : Node) (first : Nat)
    (cells : List Nat) : Prop where
  sound : g.Sound disk none
  isDir : g.IsDir disk parent
  listed : g.listings disk parent node.file.direntIndex = some ⟨false, first⟩
  chain : Chain (g.link disk) first cells
  entry : ∃ entry front slot back, EntryOfFile g disk parent node entry front slot back ∧
    front.length = node.file.direntIndex

lemma EntryOfFile.congr (hentry : EntryOfFile g d parent node entry front slot back)
    (hslots : g.dirSlots d' parent = g.dirSlots d parent)
    (hcluss : g.dirClusters d' parent = g.dirClusters d parent) :
    EntryOfFile g d' parent node entry front slot back :=
  { hentry with
    at_slot := hslots ▸ hentry.at_slot
    place_eq := by rw [hentry.place_eq, rawEntryPosition, rawEntryPosition, hcluss] }

variable (hfile : FileAt g d parent node first cells)

include hfile

/-- The file stays what it is if all directories keep their chains and slots. -/
lemma FileAt.kept {cells' : List Nat}
    (hsound : g.Sound d' none) (hchain : Chain (g.link d') first cells')
    (hkept : ∀ dir others, g.IsDir d dir → Chain (g.link d) dir others →
      Chain (g.link d') dir others ∧ g.dirSlots d' dir = g.dirSlots d dir) :
    FileAt g d' parent node first cells' := by
  obtain ⟨parents, hpars⟩ := hfile.sound.exists_chain hfile.isDir
  obtain ⟨hpars', hslots⟩ := hkept parent parents hfile.isDir hpars
  have hsame : g.SameSlots d d' := by
    intro dir hdir
    obtain ⟨others, hothers⟩ := hfile.sound.exists_chain hdir
    exact (hkept dir others hdir hothers).2
  obtain ⟨entry, front, slot, back, hentry, hindex⟩ := hfile.entry
  refine ⟨hsound, hsame.isDir_iff.mpr hfile.isDir, ?_, hchain, entry, front, slot, back,
    hentry.congr hslots ?_, hindex⟩
  · rw [listings_congr hslots]
    exact hfile.listed
  · rw [dirClusters_of_chain hpars, dirClusters_of_chain hpars']

/-- All directories keep their chains and slots while bytes of the file are written. -/
lemma FileAt.kept_rewrite
    (hrew : Rewrites d cells d') {dir : Nat} {others : List Nat} (hdir : g.IsDir d dir)
    (hothers : Chain (g.link d) dir others) :
    Chain (g.link d') dir others ∧ g.dirSlots d' dir = g.dirSlots d dir := by
  have hapart := ChainTable.Consistent.file_apart hfile.sound.chains hfile.isDir hfile.listed hdir
    hfile.chain hothers
  exact ⟨hrew.chain hothers, dirSlots_congr hothers (hrew.chain hothers) fun c hc =>
    hrew.data_same c fun hmem => hapart hmem hc⟩

/-- Bytes of the file are written. -/
lemma FileAt.rewrite (hrew : Rewrites d cells d') : FileAt g d' parent node first cells := by
  refine hfile.kept ⟨hfile.sound.mirrored.congr hrew.fat_eq, ?_⟩ (hrew.chain hfile.chain)
    fun dir others => hfile.kept_rewrite hrew
  rw [link_of_fat_eq hrew.fat_eq]
  refine ChainTable.Consistent.keep hfile.sound.chains fun dir hdir => ?_
  obtain ⟨others, hothers⟩ := hfile.sound.exists_chain hdir
  exact listings_congr (hfile.kept_rewrite hrew hdir hothers).2

lemma FileAt.holds :
    Holds g.rootCluster (g.listings d) none (.entry parent node.file.direntIndex) first :=
  ⟨hfile.isDir, false, hfile.listed⟩

/-- All directories keep their chains and slots while the chain of the file grows. -/
lemma FileAt.kept_append {tail new : Nat} (htail : tail ∈ cells) (hlast : g.link d tail = .last)
    (happs : Appends g d tail new d') {dir : Nat} {others : List Nat}
    (hdir : g.IsDir d dir) (hothers : Chain (g.link d) dir others) :
    Chain (g.link d') dir others ∧ g.dirSlots d' dir = g.dirSlots d dir := by
  have hgrows := hfile.sound.grow hfile.holds hfile.chain htail hlast happs
  obtain ⟨holder, hholder, -⟩ := @Reach.exists_holder _ _ _ _ none _ hdir
  have hne : dir ≠ first := by
    rintro rfl
    exact ChainTable.Consistent.file_apart hfile.sound.chains hfile.isDir
      hfile.listed hdir hfile.chain hothers hfile.chain.mem_first hothers.mem_first
  obtain ⟨hchain, hdata⟩ := hgrows.kept hholder (fun heq => hne (Prod.mk.inj heq).2) hothers
  exact ⟨hchain, dirSlots_congr hothers hchain hdata⟩

/-- The chain of the file grows. -/
lemma FileAt.append {tail new : Nat}
    (htail : tail ∈ cells) (hlast : g.link d tail = .last) (happs : Appends g d tail new d') :
    FileAt g d' parent node first (cells ++ [new]) := by
  have hgrows := hfile.sound.grow hfile.holds hfile.chain htail hlast happs
  exact hfile.kept hgrows.sound hgrows.chain fun dir others =>
    hfile.kept_append htail hlast happs

omit hfile

/-! ## The loops -/

lemma rewrites_writeBytes {cluster : Nat} (hclus : cluster ∈ cells) (start count : Nat)
    (bytes : Nat → UInt8) : Rewrites d cells (writeBytes d cluster start count bytes) := by
  refine ⟨rfl, fun c hc => Function.update_of_ne ?_ _ _⟩
  rintro rfl
  exact hc hclus

lemma rewrites_writeSectors (req : Request) {cluster : Nat} (hclus : cluster ∈ cells)
    (sec rest : Nat) (prog : Progress) :
    Rewrites prog.disk cells (writeSectors req cluster sec rest prog).disk := by
  induction rest generalizing sec prog with
  | zero => exact rewrites_refl
  | succ rest ih =>
    rw [writeSectors]
    split
    · dsimp only
      generalize (prog.fileOffset + 512) % 2 ^ 32 = next
      split
      · exact ih (sec + 1) { prog with fileOffset := next }
      next copyStart copySize _ =>
        generalize (prog.written + copySize) % 2 ^ 32 = written
        refine Rewrites.trans ?_ (ih (sec + 1) ⟨_, next, written⟩)
        dsimp only
        apply rewrites_writeBytes hclus
    · exact rewrites_refl

lemma chain_suffix {table : Nat → Link Nat} {before after : List Nat} {cell : Nat}
    (hchain : Chain table first (before ++ cell :: after)) : Chain table cell (cell :: after) := by
  generalize hcells : before ++ cell :: after = cells at hchain
  induction hchain generalizing before with
  | last hlast =>
    cases before with
    | nil =>
      obtain ⟨rfl, rfl⟩ := List.cons.inj hcells
      exact .last hlast
    | cons head before => simp at hcells
  | next hnext hrest ih =>
    cases before with
    | nil =>
      obtain ⟨rfl, rfl⟩ := List.cons.inj hcells
      exact .next hnext hrest
    | cons head before => exact ih (List.cons.inj hcells).2

/-- What a write keeps from cluster to cluster: it holds of the number of clusters that
the loop is through with, of the chain of the file and of the progress. -/
structure KeptByWrite (g : Geometry) (parent : Nat) (node : Node) (first : Nat) (request : Request)
    (kept : Nat → List Nat → Progress → Prop) : Prop where
  sectors : ∀ {before after cluster progress},
    FileAt g progress.disk parent node first (before ++ cluster :: after) →
    kept before.length (before ++ cluster :: after) progress →
    progress.fileOffset < request.limit →
    kept (before.length + 1) (before ++ cluster :: after)
      (writeSectors request cluster 0 g.sectorsPerCluster progress)
  append : ∀ {cells count tail new progress d'}, FileAt g progress.disk parent node first cells →
    kept count cells progress → tail ∈ cells → g.link progress.disk tail = .last →
    Appends g progress.disk tail new d' →
    kept count (cells ++ [new]) { progress with disk := d' }

/-- The loop over the clusters ends, and leaves the file with its chain as far as it goes
and with what is kept from cluster to cluster. -/
lemma FileAt.writeClusters {req : Request} {kept : Nat → List Nat → Progress → Prop}
    (hkept : KeptByWrite g parent node first req kept) {rounds cluster : Nat}
    {prog : Progress} {before after : List Nat}
    (hfile : FileAt g prog.disk parent node first (before ++ cluster :: after))
    (hrounds : before.length + rounds = g.clusterCount + 1)
    (hstart : kept before.length (before ++ cluster :: after) prog) :
    (∀ d', g.writeClusters req rounds cluster prog ≠ (.running, d')) ∧
      ∃ cells, FileAt g (g.writeClusters req rounds cluster prog).2 parent node first cells ∧
        ∀ written d', g.writeClusters req rounds cluster prog = (.done written, d') →
          ∃ count fileOffset, kept count cells ⟨d', fileOffset, written⟩ ∧
            (req.buffer.length ≤ written ∨ req.limit ≤ fileOffset) := by
  induction rounds generalizing cluster prog before after with
  | zero =>
    have hlen := length_chain_le hfile.chain
    rw [length_append] at hlen
    omega
  | succ rounds ih =>
    have hmem : cluster ∈ before ++ cluster :: after := by simp
    have hdata := isData_of_mem_chain hfile.chain hmem
    have hlen : ∀ next : Nat, (before ++ [next]).length + rounds = g.clusterCount + 1 := by
      intro next
      rw [length_append, length_singleton]
      omega
    rw [Geometry.writeClusters]
    by_cases hdone : req.limit ≤ prog.fileOffset
    · rw [if_pos (.inr hdone)]
      refine ⟨nofun, _, hfile, fun written d' heq => ?_⟩
      obtain ⟨hwritten, rfl⟩ := Prod.mk.inj heq
      obtain rfl := WriteEnd.done.inj hwritten
      exact ⟨_, _, hstart, .inr hdone⟩
    rw [if_neg (by simpa [hdata] using hdone)]
    have hwrote := hfile.rewrite (rewrites_writeSectors req hmem 0 g.sectorsPerCluster prog)
    have hnow := hkept.sectors hfile hstart (Nat.lt_of_not_le hdone)
    set written := writeSectors req cluster 0 g.sectorsPerCluster prog
    by_cases hall : req.buffer.length ≤ written.written ∨ req.limit ≤ written.fileOffset
    · rw [if_pos hall]
      refine ⟨nofun, _, hwrote, fun count d' heq => ?_⟩
      obtain ⟨hcount, rfl⟩ := Prod.mk.inj heq
      obtain rfl := WriteEnd.done.inj hcount
      exact ⟨_, _, hnow, hall⟩
    rw [if_neg hall]
    have hsuffix := chain_suffix hwrote.chain
    cases hsuffix with
    | last hlast =>
      -- the chain ends here: a cluster is appended
      obtain ⟨next, hnext, hend⟩ := nextCluster_of_last hlast
      rw [hnext]
      dsimp only
      rw [if_pos hend]
      rcases appendFileCluster_cases hlast with hfail | ⟨new, d', happ, happs⟩
      · rw [hfail]
        exact ⟨nofun, _, hwrote, nofun⟩
      have hgrown := hwrote.append hmem hlast happs
      have hlater := hkept.append hwrote hnow hmem hlast happs
      rw [happ]
      dsimp only
      rw [if_neg (by simp [happs.isData])]
      refine @ih new ⟨d', written.fileOffset, written.written⟩ (before ++ [cluster]) [] hgrown
        (hlen cluster) ?_
      rw [length_append]
      exact hlater
    | @next _ next rest hlink hrest =>
      have hafter := isData_of_mem_chain hrest hrest.mem_first
      have hmark := lt_clusterEnd_of_isData hafter
      rw [nextCluster_of_next hlink hafter]
      dsimp only
      rw [if_neg (by omega), if_neg (by simp [hafter])]
      obtain ⟨tail, rfl⟩ := hrest.exists_cons
      have hcells : before ++ cluster :: next :: tail = before ++ [cluster] ++ next :: tail := by
        simp
      rw [hcells] at hwrote hnow
      refine @ih next written (before ++ [cluster]) tail hwrote (hlen cluster) ?_
      rw [length_append]
      exact hnow

/-! ## A write -/

lemma Finds.entryOfFile (hfinds : Finds g d dir node entry) :
    ∃ front slot back, EntryOfFile g d (dir.start g) node entry front slot back ∧
      front.length = node.file.direntIndex := by
  have hmem := (entryOf_eq_some_iff.mp hfinds.entryOf_start).1
  obtain ⟨front, slot, back, hat⟩ := exists_entryAt hmem
  have hindex := direntIndex_of_entryAt hat.entry_eq
  rw [Nat.zero_add] at hindex
  refine ⟨front, slot, back, ⟨hat, hfinds.notDot, ?_, ?_⟩, by rw [hfinds.file_eq, hindex]⟩
  · have hentry := hat.entry_eq
    rw [entryAt, fillFile_of_isEntry hat.isEntry, map_some, Option.some.injEq] at hentry
    rw [hfinds.file_eq, ← hentry]
  · rw [hfinds.place_eq, Node.start, rawEntryPosition_norm, hindex]

include hfile in
/-- The entry of a file keeps its cluster and gets another size. -/
lemma FileAt.updateSize
    (hnode : node.file.firstCluster = first) (hisDir : node.file.isDir = false) (size : Nat) :
    ∃ d' parents updated,
      updateDirent d { node with file := { node.file with size := size } } = some d' ∧
      g.Consistent d' ∧ Chain (g.link d) parent parents ∧ Rewrites d parents d' ∧
      entryOf (g.dirSlots d' parent) node.file.direntIndex = some updated ∧
      updated.file.firstCluster = first ∧ updated.file.isDir = false ∧
      updated.file.size = size % 2 ^ 32 := by
  obtain ⟨entry, front, slot, back, hentry, hindex⟩ := hfile.entry
  obtain ⟨parents, hpars⟩ := hfile.sound.exists_chain hfile.isDir
  have hdata := isData_of_mem_chain hfile.chain hfile.chain.mem_first
  have hmark := lt_clusterEnd_of_isData hdata
  have hsized : EntryOfFile g d parent { node with file := { node.file with size := size } } entry
      front slot back := { hentry with }
  obtain ⟨d', updated, hupdate, hrew, hentry', hclus, hattr, hsize, hchg⟩ :=
    hsized.updateDirent hpars (by simp only [hnode]; unfold clusterEnd at hmark; omega)
  have hkind : updated.file.isDir = false := by
    rw [File.isDir, hattr]
    exact hisDir
  refine ⟨d', parents, updated, hupdate,
    hfile.sound.relist hfile.isDir hpars hrew hchg ?_, hpars, hrew, ?_,
    hclus.trans hnode, hkind, hsize⟩
  · rw [hindex, hfile.listed, bind_some, held,
      if_pos ⟨hentry'.notDot, by rw [hclus, hnode, hdata]⟩, hclus, hnode, hkind]
  · rw [hchg, if_pos hindex.symm]

/-- An empty file gets its first cluster. -/
lemma Sound.ensureFileFirstCluster (hsound : g.Sound d none) (hdir : g.IsDir d (dir.start g))
    (hfinds : Finds g d dir node entry) (hisDir : node.file.isDir = false) :
    (∃ d', g.ensureFileFirstCluster d node = (none, d') ∧ g.Consistent d') ∨
      ∃ node' d' first cells, g.ensureFileFirstCluster d node = (some node', d') ∧
        FileAt g d' (dir.start g) node' first cells ∧ node'.file.firstCluster = first ∧
        node'.file.isDir = false ∧ (node' = node ∧ d' = d ∨ node.file.size = 0 ∧
          node' = { node with file := { node.file with firstCluster := first } } ∧ cells = [first] ∧
          ∃ mid, Allocates g d first mid ∧ g.link d' = g.link mid) := by
  have hlist := hfinds.listings_eq
  have hindex : entry.file.direntIndex = node.file.direntIndex := by rw [hfinds.file_eq]
  obtain ⟨front, slot, back, hentry, hlen⟩ := hfinds.entryOfFile
  rw [Geometry.ensureFileFirstCluster]
  split
  next hdata =>
    rw [if_pos hdata, hisDir, hindex] at hlist
    have hholds : Holds g.rootCluster (g.listings d) none
        (.entry (dir.start g) node.file.direntIndex) node.file.firstCluster := ⟨hdir, _, hlist⟩
    obtain ⟨cells, hchain⟩ := hsound.chains.chained hholds
    exact .inr ⟨node, d, _, cells, rfl, ⟨hsound, hdir, hlist, hchain,
      entry, front, slot, back, hentry, hlen⟩, rfl, hisDir, .inl ⟨rfl, rfl⟩⟩
  rename_i hdata
  split
  · exact .inl ⟨d, rfl, hsound⟩
  rename_i hbad
  rcases halloc : g.allocCluster d with _ | found
  · exact .inl ⟨d, rfl, hsound⟩
  obtain ⟨new, mid⟩ := found
  have hallocates := allocates_of_allocCluster halloc
  obtain ⟨hsound', hsame⟩ := hsound.allocate hallocates
  obtain ⟨parents, hpars⟩ := hsound.exists_chain hdir
  have hdir' := hsame.isDir_iff.mpr hdir
  have hnewChain : Chain (g.link mid) new [new] :=
    .last (by rw [hallocates.link_eq, Function.update_self])
  have hpars' : Chain (g.link mid) (dir.start g) parents := by
    refine hpars.congr fun c hc => ?_
    rw [hallocates.link_eq, Function.update_of_ne]
    rintro rfl
    exact hpars.not_free hc hallocates.wasFree
  have hcluss : g.dirClusters mid (dir.start g) = g.dirClusters d (dir.start g) := by
    rw [dirClusters_of_chain hpars, dirClusters_of_chain hpars']
  have hmid := hentry.congr (hsame _ hdir) hcluss
  have hfilled : EntryOfFile g mid (dir.start g)
      { node with file := { node.file with firstCluster := new } } entry front slot back :=
    { hmid with }
  have hmark := lt_clusterEnd_of_isData hallocates.isData
  obtain ⟨d', updated, hupdate, hrew, hentry', hclus, hattr, -, hchg⟩ :=
    hfilled.updateDirent hpars' (by unfold clusterEnd at hmark; simp only; omega)
  dsimp only
  rw [hupdate]
  -- the entry held nothing, and now holds the new cluster
  have hvac : g.listings mid (dir.start g) node.file.direntIndex = none := by
    rw [listings_congr (hsame _ hdir), ← hindex, hlist, if_neg hdata]
  have hheld : g.held updated = some ⟨false, new⟩ := by
    rw [held, if_pos ⟨hentry'.notDot, by rw [hclus, hallocates.isData]⟩, hclus, File.isDir, hattr]
    simpa [File.isDir] using hisDir
  have hsame' := hsound'.rewrite hdir' hpars' hrew
  have hlist' : ∀ other, g.IsDir mid other → ∀ spot, g.listings d' other spot =
      if other = dir.start g ∧ spot = node.file.direntIndex then some ⟨false, new⟩
      else g.listings mid other spot := by
    intro other hother spot
    rw [listings_changed (or_iff_not_imp_right.mpr (hsame' other hother)) hchg spot,
      bind_some, hheld, hlen]
  have hcons : g.Sound d' none := by
    refine ⟨hsound'.mirrored.congr hrew.fat_eq, ?_⟩
    rw [link_of_fat_eq hrew.fat_eq]
    exact ChainTable.Consistent.handOver hsound'.chains hdir' hvac hlist' Bool.noConfusion
  have hreach : g.IsDir d' (dir.start g) := by
    refine (reach_congr fun other hother spot next => ?_).mpr hdir'
    rw [hlist' other hother]
    split
    next hhere =>
      obtain ⟨rfl, rfl⟩ := hhere
      simp [hvac]
    · exact Iff.rfl
  refine .inr ⟨_, d', new, [new], rfl, ⟨hcons, hreach, ?_, hrew.chain hnewChain, updated, front,
    _, back, hentry', hlen⟩, rfl, hisDir, .inr ⟨?_, rfl, rfl, mid, hallocates,
    link_of_fat_eq hrew.fat_eq⟩⟩
  · rw [hlist' _ hdir', if_pos ⟨rfl, rfl⟩]
  · by_contra hsize
    exact hbad (.inl hsize)

/-- A write comes to an end and leaves a consistent volume. -/
lemma Sound.writePath {path : NormalPath} (hsound : g.Sound d none) (off : Nat)
    (buffer : List UInt8) :
    (∀ d', g.writePath d path.text off buffer ≠ (.running, d')) ∧
      g.Consistent (g.writePath d path.text off buffer).2 := by
  rw [Geometry.writePath]
  rcases hfound : g.findPath d path.text with _ | node
  · exact ⟨nofun, hsound⟩
  obtain ⟨dir, entry, -, hdir, hfinds, -⟩ := exists_finds_of_findPath hfound
  dsimp only
  rw [writeFileRange]
  split
  · exact ⟨nofun, hsound⟩
  rename_i hkind
  split
  · exact ⟨nofun, hsound⟩
  have hisDir : node.file.isDir = false := by simpa using (not_or.mp hkind).1
  rcases hsound.ensureFileFirstCluster hdir hfinds hisDir with
    ⟨d', hens, hcons⟩ | ⟨node', d', first, cells, hens, hfile, rfl, hnotDir, -⟩
  · rw [hens]
    exact ⟨nofun, hcons⟩
  rw [hens]
  dsimp only
  split
  · exact ⟨nofun, hfile.sound⟩
  obtain ⟨rest, rfl⟩ := hfile.chain.exists_cons
  have hkept : KeptByWrite g (dir.start g) node' node'.file.firstCluster
      ⟨off, buffer, (off + buffer.length) % 2 ^ 32⟩ fun _ _ _ => True :=
    ⟨fun _ _ _ => trivial, fun _ _ _ _ _ => trivial⟩
  obtain ⟨hends, cells', hwrote, -⟩ := @FileAt.writeClusters g _ _ _ _ _ hkept
    (g.clusterCount + 1) _ ⟨d', 0, 0⟩ [] rest hfile (by simp) trivial
  split
  next written final hloop =>
    rw [hloop] at hwrote
    split
    · obtain ⟨last, _, _, hupdate, hcons, -⟩ :=
        hwrote.updateSize rfl hnotDir ((off + written) % 2 ^ 32)
      rw [hupdate]
      exact ⟨nofun, hcons⟩
    · exact ⟨nofun, hwrote.sound⟩
  next final hloop =>
    rw [hloop] at hwrote
    exact ⟨nofun, hwrote.sound⟩
  next final hloop => exact absurd hloop (hends final)

end NexOS.Fat32.Geometry
