import NexOS.Fat32.VolumeWriting
import NexOS.Lib.GuardedRuns

/-! # Runs on a volume

Creation of files and directories completes the calls that change a volume. Each of them
leaves a consistent volume consistent, whether it succeeds or not, if the directory that
it creates in has no used slots behind the end mark, if the path of the directory that it
deletes from fits its buffer, and if a directory that it removes has no entry that passes
for a dot entry.
-/

namespace NexOS.Fat32.Geometry

open List ChainTable

variable {g : Geometry} {d d' : Disk} {aside : Option Nat} {dir : Node} {new : Nat}
  {cells : List Nat} {name : Name}

/-! ## The cluster of a new directory -/

/-- What is put aside can be written to. -/
lemma Sound.rewriteAside (hsound : g.Sound d (some new)) (hchain : Chain (g.link d) new cells)
    (hrew : Rewrites d cells d') :
    g.Sound d' (some new) ∧ g.SameSlots d d' := by
  have hsame : g.SameSlots d d' := by
    intro dir hdir
    obtain ⟨others, hothers⟩ := hsound.exists_chain hdir
    have hapart := ChainTable.Consistent.aside_apart hsound.chains hdir hchain hothers
    exact dirSlots_congr hothers (hrew.chain hothers) fun c hc =>
      hrew.data_same c fun hmem => hapart hmem hc
  refine ⟨⟨hsound.mirrored.congr hrew.fat_eq, ?_⟩, hsame⟩
  rw [link_of_fat_eq hrew.fat_eq]
  exact ChainTable.Consistent.keep hsound.chains fun dir hdir => listings_congr (hsame dir hdir)

/-- What was put aside is freed when it is not used. -/
lemma Sound.dropAside (hsound : g.Sound d (some new)) (hchain : Chain (g.link d) new cells) :
    g.Consistent (g.freeClusterChain d new).2 := by
  obtain ⟨d', hfree, hfrees⟩ := freeClusterChain_of_chain hchain
  rw [hfree]
  refine ⟨hfrees.mirrored hsound.mirrored, ChainTable.Consistent.keep
    (ChainTable.Consistent.dropAside hsound.chains hchain hfrees.freed hfrees.link_same) ?_⟩
  intro dir hdir
  obtain ⟨others, hothers⟩ := hsound.exists_chain hdir
  have hapart := ChainTable.Consistent.aside_apart hsound.chains hdir hchain hothers
  apply listings_congr
  apply dirSlots_congr hothers
  · exact hothers.congr fun c hc => hfrees.link_same c fun hmem => hapart hmem hc
  · exact fun c _ => by rw [hfrees.data_eq]

/-- The entries of a new directory are its dot entries. -/
lemma isDot_of_mem_dots {self parent count : Nat} {entry : Entry}
    (hmem : entry ∈ entries (shortDirent (pad 11 [dot]) attrDirectory self ::
      shortDirent (pad 11 [dot, dot]) attrDirectory parent :: List.replicate count Slot.zero)) :
    entry.isDot = true := by
  obtain ⟨first, hfirst, hents⟩ := @exists_dotEntry [dot] rfl self 0
    (shortDirent (pad 11 [dot, dot]) attrDirectory parent :: List.replicate count Slot.zero)
  obtain ⟨second, hsnd, hrest⟩ := @exists_dotEntry [dot, dot] rfl parent 1
    (List.replicate count Slot.zero)
  have hzeros : entriesFrom {} 2 (List.replicate count Slot.zero) = [] :=
    entriesFrom_of_isEnd (replicate_zero_isEnd count) {} 2
  rw [entries, hents, hrest, hzeros, mem_cons, mem_singleton] at hmem
  rcases hmem with rfl | rfl
  · rw [Entry.isDot, hfirst.raw_eq, hfirst.name_eq]
    rfl
  · rw [Entry.isDot, hsnd.raw_eq, hsnd.name_eq]
    rfl

/-- A cleared cluster becomes a directory that holds nothing. -/
lemma initDirectoryCluster_spec {parent : Nat} (hchain : Chain (g.link d) new [new])
    (hzero : d.data new = fun _ => 0) :
    ∃ d', g.initDirectoryCluster d new parent = some d' ∧ Rewrites d [new] d' ∧
      ∀ index, g.listings d' new index = none := by
  have hdata := isData_of_mem_chain hchain hchain.mem_first
  rw [initDirectoryCluster, if_neg (by simp [hdata])]
  have hrew : ∀ (d : Disk) (i : Nat) (slot : Slot),
      Rewrites d [new] (writeSlot d (new, i) slot) := fun d i slot =>
    @rewrites_writeSlot d [new] (new, i) mem_cons_self slot
  refine ⟨_, rfl, (hrew _ _ _).trans (hrew _ _ _), fun index => ?_⟩
  have hcount : ∃ count, g.slotsPerCluster = count + 2 :=
    ⟨g.slotsPerCluster - 2, by have := g.sectors_pos; unfold slotsPerCluster; omega⟩
  obtain ⟨count, hcount⟩ := hcount
  -- both slots are in the one cluster of the directory
  have hslots : g.dirSlots (writeSlot (writeSlot d (new, 0)
      (shortDirent (pad 11 [dot]) attrDirectory new)) (new, 1)
      (shortDirent (pad 11 [dot, dot]) attrDirectory (g.dirFirstCluster parent))) new =
      shortDirent (pad 11 [dot]) attrDirectory new ::
        shortDirent (pad 11 [dot, dot]) attrDirectory (g.dirFirstCluster parent) ::
          List.replicate count Slot.zero := by
    rw [dirSlots_of_chain (((hrew _ _ _).trans (hrew _ _ _)).chain hchain),
      flatMap_singleton, clusterSlots_writeSlot trimmed_shortDirent,
      clusterSlots_writeSlot trimmed_shortDirent, clusterSlots_zero hzero, hcount]
    rfl
  rw [listings, hslots]
  cases hentry : entryOf _ index with
  | none => rfl
  | some entry =>
    have hdot := isDot_of_mem_dots (entryOf_eq_some_iff.mp hentry).1
    rw [Option.bind_some, held, if_neg (by simp [hdot])]

/-! ## Creation by path -/

/-- The directory that a path is created in has no used slots behind the end mark. -/
def ParentEnded (g : Geometry) (disk : Disk) (path : NormalPath) : Prop :=
  ∀ dir ∈ g.findParent disk path.parentText, Ended (g.dirSlots disk dir.file.firstCluster)

/-- Creation in a directory that was found by its path. -/
lemma Sound.creates_norm {attr : UInt8} {cluster : Nat} (hsound : g.Sound d aside)
    (hdir : g.IsDir d (dir.start g)) (hended : Ended (g.dirSlots d (dir.start g)))
    (hattr : attr = 0 ∨ attr = attrDirectory) (hclus : cluster < 2 ^ 32) :
    Creates g d aside (dir.start g) attr cluster (g.createEntry d dir name attr cluster) := by
  rw [← createEntry_norm]
  exact @Sound.creates _ _ _ (Node.norm g dir) _ _ _ hsound hdir hended hattr hclus

lemma Sound.createPath {path : NormalPath} (hsound : g.Sound d none)
    (hended : ParentEnded g d path) : g.Consistent (g.createPath d path.text).2 := by
  rw [Geometry.createPath, splitParentChildPath_text]
  split
  · exact hsound
  next parent name hsplit =>
    split at hsplit
    · cases hsplit
    obtain ⟨rfl, rfl⟩ := Prod.mk.inj (Option.some.inj hsplit)
    split
    · exact hsound
    rcases hpar : g.findParent d path.parentText with _ | dir
    · exact hsound
    have hdir := (isDir_of_findParent hpar).1
    dsimp only
    split
    · exact hsound
    · exact (hsound.creates_norm hdir (by rw [Node.start, dirSlots_norm]; exact hended dir hpar)
        (.inl rfl) (by norm_num)).consistent hdir

/-- The part of `fat32_mkdir_path` that follows the checks. -/
lemma Sound.makeDirectory (hsound : g.Sound d none) (hdir : g.IsDir d (dir.start g))
    (hended : Ended (g.dirSlots d (dir.start g))) (halloc : g.allocCluster d = some (new, d')) :
    ∃ made, g.initDirectoryCluster d' new (dir.start g) = some made ∧
      match g.createEntry made dir name attrDirectory new with
      | (none, last) => g.Consistent (g.freeClusterChain last new).2
      | (some _, last) => g.Consistent last := by
  have hallocates := allocates_of_allocCluster halloc
  obtain ⟨hsound', hsame'⟩ := hsound.allocate hallocates
  have hchain : Chain (g.link d') new [new] :=
    .last (by rw [hallocates.link_eq, Function.update_self])
  obtain ⟨made, hmade, hrew, hempty⟩ := @initDirectoryCluster_spec _ _ _ (dir.start g) hchain
    (by rw [hallocates.data_eq, Function.update_self])
  obtain ⟨hsound'', hsame''⟩ := hsound'.rewriteAside hchain hrew
  have hdir' : g.IsDir d' (dir.start g) := hsame'.isDir_iff.mpr hdir
  have hdir'' : g.IsDir made (dir.start g) := hsame''.isDir_iff.mpr hdir'
  have hended'' : Ended (g.dirSlots made (dir.start g)) := by
    rwa [hsame'' _ hdir', hsame' _ hdir]
  have hlt : new < 2 ^ 32 := by
    have hbound := (lt_clusterEnd_of_isData hallocates.isData).2
    unfold clusterEnd at hbound
    omega
  have hcreates : Creates g made (some new) (dir.start g) attrDirectory new
      (g.createEntry made dir name attrDirectory new) :=
    hsound''.creates_norm hdir'' hended'' (.inr rfl) hlt
  refine ⟨made, hmade, ?_⟩
  have hchain'' := hrew.chain hchain
  split
  next last hcreate =>
    rw [hcreate] at hcreates
    cases hcreates with
    | failed hroom => exact hroom.sound.dropAside (hroom.aside_kept rfl hchain'').1
  next node last hcreate =>
    rw [hcreate] at hcreates
    exact hcreates.consistent_dir hdir'' hallocates.isData hchain'' hempty

lemma Sound.mkdirPath {path : NormalPath} (hsound : g.Sound d none)
    (hended : ParentEnded g d path) : g.Consistent (g.mkdirPath d path.text).2 := by
  rw [Geometry.mkdirPath, splitParentChildPath_text]
  split
  · exact hsound
  next parent name hsplit =>
    split at hsplit
    · cases hsplit
    obtain ⟨rfl, rfl⟩ := Prod.mk.inj (Option.some.inj hsplit)
    split
    · exact hsound
    rcases hpar : g.findParent d path.parentText with _ | dir
    · exact hsound
    have hdir := (isDir_of_findParent hpar).1
    dsimp only
    split
    · exact hsound
    rcases halloc : g.allocCluster d with _ | allocated
    · exact hsound
    obtain ⟨new, d'⟩ := allocated
    obtain ⟨made, hmade, hlast⟩ := @Sound.makeDirectory _ _ _ _ _ path.name hsound hdir
      (by rw [Node.start, dirSlots_norm]; exact hended dir hpar) halloc
    simp only [Node.start] at hmade
    simp only [hmade]
    cases hcreate : g.createEntry made dir path.name attrDirectory new with
    | mk result last =>
      rw [hcreate] at hlast
      cases result with
      | none => exact hlast
      | some node => exact hlast

/-! ## Runs -/

/-- The calls that change a volume. -/
inductive Call where
  | create (path : NormalPath)
  | mkdir (path : NormalPath)
  | write (path : NormalPath) (offset : Nat) (buffer : List UInt8)
  | unlink (path : NormalPath)
  | rmdir (path : NormalPath)

/-- The volume after a call. There is none if the call does not come to its end. -/
def perform (g : Geometry) (disk : Disk) : Call → Option Disk
  | .create path => some (g.createPath disk path.text).2
  | .mkdir path => some (g.mkdirPath disk path.text).2
  | .write path offset buffer =>
    match g.writePath disk path.text offset buffer with
    | (.running, _) => none
    | (_, disk) => some disk
  | .unlink path => some (g.unlinkPath disk path.text).2
  | .rmdir path => some (g.rmdirPath disk path.text).2

/-- After a call that does not come to its end there is no other call. -/
def step (g : Geometry) (state : Option Disk) (call : Call) : Option Disk :=
  state.bind fun disk => g.perform disk call

/-- The volume after a list of calls. -/
def run (g : Geometry) (disk : Disk) (calls : List Call) : Option Disk :=
  GuardedRuns.run g.step (some disk) calls

/-- What the code relies on before a call. The path of the parent directory has to fit
its buffer when the path is found, since a chain is freed before the path is split. -/
def Fits (g : Geometry) (disk : Disk) : Call → Prop
  | .create path => ParentEnded g disk path
  | .mkdir path => ParentEnded g disk path
  | .write _ _ _ => True
  | .unlink path => ∀ _node ∈ g.findPath disk path.text, path.parentText.length < pathBufferSize
  | .rmdir path => ∀ node ∈ g.findPath disk path.text,
      path.parentText.length < pathBufferSize ∧ DotNamesAreDots g disk node.file.firstCluster

/-- Every call of the list fits. -/
def RunFits (g : Geometry) (disk : Disk) (calls : List Call) : Prop :=
  GuardedRuns.RunFits g.step (fun state call => ∀ disk ∈ state, g.Fits disk call) (some disk) calls

lemma Consistent.perform {call : Call} (hcons : g.Consistent d) (hfits : g.Fits d call) :
    ∃ d', g.perform d call = some d' ∧ g.Consistent d' := by
  cases call with
  | create path => exact ⟨_, rfl, Sound.createPath hcons hfits⟩
  | mkdir path => exact ⟨_, rfl, Sound.mkdirPath hcons hfits⟩
  | write path off buffer =>
    obtain ⟨hends, hwrote⟩ := @Sound.writePath _ _ path hcons off buffer
    rw [Geometry.perform]
    split
    next last hrun => exact absurd hrun (hends last)
    next result last _ hwrite =>
      rw [hwrite] at hwrote
      exact ⟨last, rfl, hwrote⟩
  | unlink path =>
    refine ⟨_, rfl, ?_⟩
    cases hfound : g.findPath d path.text with
    | none =>
      rw [Geometry.unlinkPath, hfound]
      exact hcons
    | some node => exact Sound.unlinkPath hcons (hfits node hfound)
  | rmdir path =>
    refine ⟨_, rfl, ?_⟩
    cases hfound : g.findPath d path.text with
    | none =>
      rw [Geometry.rmdirPath, hfound]
      exact hcons
    | some node =>
      exact Sound.rmdirPath hcons (hfits node hfound).1 fun node hnode => (hfits node hnode).2

/-- A volume stays consistent in every run whose calls fit, whatever they return. -/
theorem volume_stays_consistent (g : Geometry) (disk : Disk) (calls : List Call)
    (hcons : g.Consistent disk) (hfits : g.RunFits disk calls) :
    ∃ disk', g.run disk calls = some disk' ∧ g.Consistent disk' := by
  refine GuardedRuns.run_preserves (fun state => ∃ disk, state = some disk ∧ g.Consistent disk)
    ?_ ⟨disk, rfl, hcons⟩ hfits
  rintro _ call ⟨disk, rfl, hcons⟩ hfits
  exact hcons.perform (hfits disk rfl)

/-! ## Volumes with chains of one cluster

Whether such a volume is consistent can be checked when its directories are known.
-/

/-- The entries of a directory with a cluster of their own. -/
def listed (g : Geometry) (disk : Disk) (dir : Nat) : List (Nat × Held Nat) :=
  (entries (g.dirSlots disk dir)).filterMap fun entry =>
    (g.held entry).map fun held => (entry.file.direntIndex, held)

lemma listings_eq_some_iff {dir index : Nat} {held : Held Nat} :
    g.listings d dir index = some held ↔ (index, held) ∈ g.listed d dir := by
  simp only [listings, listed, Option.bind_eq_some_iff, entryOf_eq_some_iff, mem_filterMap,
    Option.map_eq_some_iff, Prod.mk.injEq]
  constructor
  · rintro ⟨entry, ⟨hmem, hindex⟩, hheld⟩
    exact ⟨entry, hmem, held, hheld, hindex, rfl⟩
  · rintro ⟨entry, hmem, _, hheld, hindex, rfl⟩
    exact ⟨entry, ⟨hmem, hindex⟩, hheld⟩

/-- The holders of chains, for the directories that are given. -/
def owners (g : Geometry) (disk : Disk) (dirs : List Nat) : List (Holder Nat Nat × Nat) :=
  (.root, g.rootCluster) :: dirs.flatMap fun dir =>
    (g.listed disk dir).map fun place => (.entry dir place.1, place.2.first)

section Certificate

variable {dirs : List Nat}

lemma isDir_root : ∀ dir ∈ [g.rootCluster], g.IsDir d dir := by
  simp only [mem_singleton]
  rintro dir rfl
  exact .root

/-- The directories are those given if they are reached and lead to no others. -/
lemma isDir_iff_mem (hreach : ∀ dir ∈ dirs, g.IsDir d dir) (hroot : g.rootCluster ∈ dirs)
    (hclose : ∀ dir ∈ dirs, ∀ place ∈ g.listed d dir, place.2.isDir = true → place.2.first ∈ dirs)
    {dir : Nat} : g.IsDir d dir ↔ dir ∈ dirs := by
  refine ⟨fun hdir => ?_, hreach dir⟩
  induction hdir with
  | root => exact hroot
  | enter _ hentry ih => exact hclose _ ih _ (listings_eq_some_iff.mp hentry) rfl

lemma holds_iff_mem_owners (hdirs : ∀ {dir}, g.IsDir d dir ↔ dir ∈ dirs)
    {holder : Holder Nat Nat} {first : Nat} :
    Holds g.rootCluster (g.listings d) none holder first ↔ (holder, first) ∈ g.owners d dirs := by
  cases holder with
  | root => simp [Holds, owners]
  | aside => simp [Holds, owners]
  | entry dir index =>
    have hreach : Reach g.rootCluster (g.listings d) dir ↔ dir ∈ dirs := hdirs
    simp only [Holds, hreach, listings_eq_some_iff, owners, mem_cons, mem_flatMap,
      mem_map, Prod.mk.injEq, Holder.entry.injEq, reduceCtorEq, false_and, false_or]
    constructor
    · rintro ⟨hmem, isDir, hplace⟩
      exact ⟨dir, hmem, _, hplace, ⟨rfl, rfl⟩, rfl⟩
    · rintro ⟨_, hmem, ⟨_, isDir, _⟩, hplace, ⟨rfl, rfl⟩, rfl⟩
      exact ⟨hmem, isDir, hplace⟩

lemma consistent_of_owners (hmirror : g.Mirrored d) (hdirs : ∀ {dir}, g.IsDir d dir ↔ dir ∈ dirs)
    (hnodup : ((g.owners d dirs).map Prod.snd).Nodup)
    (hlast : ∀ c ∈ (g.owners d dirs).map Prod.snd, g.link d c = .last)
    (hcov : ∀ c < g.clusterCount + 2, g.link d c ≠ .free → g.link d c ≠ .bad →
      c ∈ (g.owners d dirs).map Prod.snd) : g.Consistent d := by
  have hchain : ∀ {holder first}, (holder, first) ∈ g.owners d dirs →
      Chain (g.link d) first [first] := fun hmem => .last (hlast _ (mem_map_of_mem hmem))
  refine ⟨hmirror, ⟨fun hholds => ⟨_, hchain ((holds_iff_mem_owners hdirs).mp hholds)⟩, ?_, ?_⟩⟩
  · intro holder other first second cells others hfirst hsnd hne hcells hothers
    rw [holds_iff_mem_owners hdirs] at hfirst hsnd
    rw [hcells.unique (hchain hfirst), hothers.unique (hchain hsnd), disjoint_singleton,
      mem_singleton]
    rintro rfl
    exact hne (inj_on_of_nodup_map hnodup hfirst hsnd rfl)
  · intro c hc hgood
    obtain ⟨⟨holder, first⟩, hmem, rfl⟩ :=
      mem_map.mp (hcov c (clusterIsData_iff.mp (isData_of_link_ne_free hc)).2 hc hgood)
    exact ⟨holder, first, _, (holds_iff_mem_owners hdirs).mpr hmem, hchain hmem, mem_cons_self⟩

end Certificate

lemma ended_iff {slots : List Slot} :
    Ended slots ↔ ∀ slot ∈ slots.dropWhile fun slot => !slot.isEnd, slot.isEnd = true := by
  induction slots with
  | nil => simp [Ended]
  | cons slot rest ih =>
    rw [dropWhile_cons]
    cases hend : slot.isEnd with
    | false =>
      simp only [Bool.not_false, if_true, ← ih]
      exact ⟨fun hended => @Ended.of_append [slot] rest hended, fun hended =>
        @Ended.append [slot] rest (by simpa using hend) hended⟩
    | true =>
      simp only [Bool.not_true, Bool.false_eq_true, if_false, forall_mem_cons, hend, true_and]
      refine ⟨fun hended => hended [] slot rest rfl hend, fun hrest => ?_⟩
      intro front later back heq _ last hlast
      cases front with
      | nil =>
        obtain ⟨rfl, rfl⟩ := List.cons.inj heq
        exact hrest last hlast
      | cons _ front =>
        obtain ⟨-, rfl⟩ := List.cons.inj heq
        exact hrest last (by simp [hlast])

instance (slots : List Slot) : Decidable (Ended slots) := decidable_of_iff _ ended_iff.symm

instance (g : Geometry) (disk : Disk) (path : NormalPath) :
    Decidable (ParentEnded g disk path) := by
  unfold ParentEnded; infer_instance

instance (g : Geometry) (disk : Disk) (first : Nat) : Decidable (DotNamesAreDots g disk first) := by
  unfold DotNamesAreDots; infer_instance

instance (g : Geometry) (disk : Disk) (call : Call) : Decidable (g.Fits disk call) := by
  cases call <;> unfold Fits <;> infer_instance

instance (g : Geometry) (disk : Disk) (calls : List Call) : Decidable (g.RunFits disk calls) :=
  GuardedRuns.RunFits.decidable _ _ _ _

/-! ## Small volumes -/

/-- Six clusters of one sector and two tables. -/
def small : Geometry where
  clusterCount := 6
  tableCount := 2
  sectorsPerCluster := 1
  rootCluster := 2
  tables_pos := by decide
  sectors_pos := by decide
  count_le := by decide
  root_data := by decide

/-- A volume with single clusters in use and the given slots. -/
def volumeOf (used : List Nat) (slots : Nat → List Slot) : Disk where
  fat _ cluster := if cluster ∈ used then clusterEnd else 0
  data cluster b := (slots cluster).getD (b / 32) Slot.zero (b % 32)

lemma mirrored_volumeOf (g : Geometry) (used : List Nat) (slots : Nat → List Slot) :
    g.Mirrored (volumeOf used slots) := fun _ _ => rfl

def dotSlots (self parent : Nat) : List Slot :=
  [shortDirent (pad 11 [dot]) attrDirectory self,
    shortDirent (pad 11 [dot, dot]) attrDirectory parent]

/-- A volume with an empty root directory. -/
def blankVolume : Disk := volumeOf [2] fun _ => []

lemma consistent_blankVolume : small.Consistent blankVolume :=
  consistent_of_owners (mirrored_volumeOf _ _ _)
    (isDir_iff_mem isDir_root (by decide) (by decide +kernel))
    (by decide +kernel) (by decide +kernel) (by decide +kernel)

lemma properSegment_letter : ProperSegment [0x44] ∧ ProperSegment [0x46] :=
  ⟨⟨by decide, by decide, by decide⟩, ⟨by decide, by decide, by decide⟩⟩

/-- The path `D`. -/
def dirPath : NormalPath := ⟨[], [0x44], nofun, properSegment_letter.1⟩

/-- The path `D/F`. -/
def filePath : NormalPath :=
  ⟨[[0x44]], [0x46], by simpa using properSegment_letter.1, properSegment_letter.2⟩

/-- A file is made in a new directory, written to and removed with its directory. -/
theorem volume_stays_consistent_file :
    ∃ disk, small.run blankVolume [.mkdir dirPath, .create filePath, .write filePath 0 [1, 2],
        .unlink filePath, .rmdir dirPath] = some disk ∧ small.Consistent disk :=
  volume_stays_consistent small blankVolume _ consistent_blankVolume (by decide +kernel)

/-! ## Calls that do not fit -/

/-- One call leads from a consistent volume to one that is not. -/
def Breaks (g : Geometry) (disk : Disk) (call : Call) : Prop :=
  g.Consistent disk ∧ ∃ disk', g.run disk [call] = some disk' ∧ ¬ g.Consistent disk'

/-- A directory lists an entry whose first cluster is free. -/
lemma not_consistent_of_free {dir index : Nat} {held : Held Nat} (hdir : g.IsDir d dir)
    (hlist : (index, held) ∈ g.listed d dir) (hfree : g.link d held.first = .free) :
    ¬ g.Consistent d := by
  intro hcons
  obtain ⟨cells, hchain⟩ := @Partitioned.chained _ _ _ _ hcons.chains (.entry dir index) held.first
    ⟨hdir, held.isDir, listings_eq_some_iff.mpr hlist⟩
  exact hchain.not_free hchain.mem_first hfree

lemma isDir_of_listed {dir index first : Nat} (hdir : g.IsDir d dir)
    (hlist : (index, ⟨true, first⟩) ∈ g.listed d dir) : g.IsDir d first :=
  .enter hdir (listings_eq_some_iff.mpr hlist)

/-- Two names of this length fill a path buffer. -/
def wideName : Name := List.replicate 128 0x61

lemma properSegment_wideName : ProperSegment wideName :=
  ⟨by decide, by decide +kernel, by decide +kernel⟩

/-- Two directories with such names and a file in the inner one. The path of the inner
directory does not fit its buffer. -/
def deepPath : NormalPath :=
  ⟨[wideName, wideName], [0x46], by simpa using properSegment_wideName, properSegment_letter.2⟩

/-- A directory under two long names. -/
def deepVolume : Disk := volumeOf [2, 3, 4, 5] fun cluster =>
    if cluster = 2 then entrySlots wideName (pad 11 [0x44]) 10 attrDirectory 3
    else if cluster = 3 then dotSlots 3 2 ++ entrySlots wideName (pad 11 [0x44]) 10 attrDirectory 4
    else if cluster = 4 then dotSlots 4 3 ++ [shortDirent (pad 11 [0x46]) 0 5]
    else []

lemma isDir_deepVolume (houter : (10, ⟨true, 3⟩) ∈ small.listed d 2)
    (hinner : (12, ⟨true, 4⟩) ∈ small.listed d 3) :
    ∀ dir ∈ [2, 3, 4], small.IsDir d dir := by
  have hthree : small.IsDir d 3 := isDir_of_listed .root houter
  simp only [mem_cons, not_mem_nil, or_false]
  rintro dir (rfl | rfl | rfl)
  · exact .root
  · exact hthree
  · exact isDir_of_listed hthree hinner

lemma consistent_deepVolume : small.Consistent deepVolume :=
  consistent_of_owners (mirrored_volumeOf _ _ _)
    (isDir_iff_mem (isDir_deepVolume (by decide +kernel) (by decide +kernel)) (by decide)
      (by decide +kernel)) (by decide +kernel) (by decide +kernel) (by decide +kernel)

/-- An entry behind the end of the root directory. -/
def staleVolume : Disk := volumeOf [2] fun cluster =>
    if cluster = 2 then [Slot.zero, shortDirent (pad 11 [0x46]) 0 5] else []

lemma consistent_staleVolume : small.Consistent staleVolume :=
  consistent_of_owners (mirrored_volumeOf _ _ _)
    (isDir_iff_mem isDir_root (by decide) (by decide +kernel))
    (by decide +kernel) (by decide +kernel) (by decide +kernel)

/-- A directory with a long entry that is named like the parent. -/
def dottedVolume : Disk := volumeOf [2, 3, 4] fun cluster =>
    if cluster = 2 then [shortDirent (pad 11 [0x44]) attrDirectory 3]
    else if cluster = 3 then dotSlots 3 2 ++ entrySlots [dot, dot] (pad 11 [0x46]) 1 0 4
    else []

lemma consistent_dottedVolume : small.Consistent dottedVolume := by
  have hreach : ∀ dir ∈ [2, 3], small.IsDir dottedVolume dir := by
    simp only [mem_cons, not_mem_nil, or_false]
    rintro dir (rfl | rfl)
    · exact .root
    · exact @isDir_of_listed _ _ 2 0 3 .root (by decide +kernel)
  exact consistent_of_owners (mirrored_volumeOf _ _ _)
    (isDir_iff_mem hreach (by decide) (by decide +kernel)) (by decide +kernel) (by decide +kernel)
    (by decide +kernel)

/-- No directory leads to the cluster of the file once its directory is removed. -/
lemma not_consistent_of_lost {c : Nat} (hnone : g.listed d g.rootCluster = [])
    (hlast : g.link d g.rootCluster = .last) (hused : g.link d c = .last)
    (hne : c ≠ g.rootCluster) : ¬ g.Consistent d := by
  intro hcons
  have hdirs : ∀ {dir}, g.IsDir d dir ↔ dir ∈ [g.rootCluster] := by
    exact isDir_iff_mem isDir_root mem_cons_self (by simp [hnone])
  obtain ⟨holder, first, cells, hholds, hchain, hmem⟩ := hcons.chains.covered
    (by rw [hused]; exact nofun) (by rw [hused]; exact nofun)
  rw [holds_iff_mem_owners hdirs] at hholds
  simp only [owners, flatMap_cons, flatMap_nil, hnone, map_nil, append_nil, mem_singleton] at hholds
  obtain ⟨-, rfl⟩ := hholds
  rw [hchain.unique (.last hlast), mem_singleton] at hmem
  exact hne hmem

/-- A file whose chain is freed keeps its entry when the path of its directory is too
long, an entry behind the end mark comes to life, and the chain of a file with a dot name
is lost with its directory. -/
theorem volume_left_inconsistent :
    Breaks small deepVolume (.unlink deepPath) ∧ Breaks small staleVolume (.create dirPath) ∧
      Breaks small dottedVolume (.rmdir dirPath) := by
  refine ⟨⟨consistent_deepVolume, _, rfl, ?_⟩, ⟨consistent_staleVolume, _, rfl, ?_⟩,
    ⟨consistent_dottedVolume, _, rfl, ?_⟩⟩
  · exact @not_consistent_of_free _ _ 4 2 ⟨false, 5⟩
      (isDir_deepVolume (by decide +kernel) (by decide +kernel) 4 (by decide)) (by decide +kernel)
      (by decide +kernel)
  · exact @not_consistent_of_free _ _ 2 1 ⟨false, 5⟩ .root (by decide +kernel) (by decide +kernel)
  · exact @not_consistent_of_lost _ _ 4 (by decide +kernel) (by decide +kernel) (by decide +kernel)
      (by decide)

end NexOS.Fat32.Geometry
