import NexOS.File.Pipes
import NexOS.Lib.Census

/-! # Lifetime of pipes

The counters of a pipe are the numbers of descriptors on its two ends. Every
function of the file layer keeps that, with one exception: the counters have
eight bits and the tables have 512 descriptors, so counting the 256th descriptor
of one end brings its counter back to zero. A pipe in that state reports the end
of the file to its readers, and its slot is given away under its descriptors.
-/

namespace NexOS.File

open Function Option Census

lemma toNat_pred {counter : BitVec 8} (hpos : counter ≠ 0#8) :
    (counter - 1#8).toNat = counter.toNat - 1 := by
  bv_omega

lemma toNat_succ {counter : BitVec 8} (hroom : counter ≠ 255#8) :
    (counter + 1#8).toNat = counter.toNat + 1 := by
  bv_omega

variable {kind : PipeEnd}

namespace FilePipe

variable (pipe : FilePipe)

@[simp] lemma ends_reset (kind : PipeEnd) : pipe.reset.ends kind = 0#8 := by
  cases kind <;> rfl

@[simp] lemma ends_clearData (kind : PipeEnd) : pipe.clearData.ends kind = pipe.ends kind := by
  cases kind <;> rfl

@[simp] lemma ends_acquireEnd_self (kind : PipeEnd) :
    (pipe.acquireEnd kind).ends kind = pipe.ends kind + 1#8 := by
  cases kind <;> rfl

lemma ends_acquireEnd_of_ne {other : PipeEnd} (hne : kind ≠ other) :
    (pipe.acquireEnd kind).ends other = pipe.ends other := by
  cases kind <;> cases other <;> first | rfl | exact absurd rfl hne

@[simp] lemma used_acquireEnd (kind : PipeEnd) : (pipe.acquireEnd kind).used = pipe.used := by
  cases kind <;> rfl

@[simp] lemma used_releaseEnd (kind : PipeEnd) : (pipe.releaseEnd kind).used = pipe.used := by
  cases kind <;> (simp only [releaseEnd]; split <;> rfl)

lemma ends_releaseEnd_self (hpos : pipe.ends kind ≠ 0#8) :
    (pipe.releaseEnd kind).ends kind = pipe.ends kind - 1#8 := by
  cases kind with
  | read =>
    have hreaders : pipe.readers ≠ 0#8 := hpos
    simp [releaseEnd, hreaders, ends]
  | write =>
    have hwriters : pipe.writers ≠ 0#8 := hpos
    simp [releaseEnd, hwriters, ends]

lemma ends_releaseEnd_of_ne {other : PipeEnd} (hne : kind ≠ other) :
    (pipe.releaseEnd kind).ends other = pipe.ends other := by
  cases kind <;> cases other <;> first
    | exact absurd rfl hne
    | (simp only [releaseEnd]; split <;> rfl)

/-- Closing an end releases it and changes no counter besides. -/
lemma ends_close (kind other : PipeEnd) :
    (pipe.close kind).ends other = (pipe.releaseEnd kind).ends other := by
  simp only [close]
  split
  next hzero =>
    split
    · exact ends_clearData _ _
    · cases other
      · exact hzero.1.symm
      · exact hzero.2.symm
  · rfl

/-- A pipe whose slot is freed by a close has no ends left. -/
lemma ends_close_of_unused (hused : pipe.used = true)
    (hfree : (pipe.close kind).used = false) (other : PipeEnd) :
    (pipe.close kind).ends other = 0#8 := by
  rw [ends_close]
  simp only [close] at hfree
  split at hfree
  next hzero =>
    cases other
    · exact hzero.1
    · exact hzero.2
  · rw [used_releaseEnd, hused] at hfree
    cases hfree

lemma readLoop_ends (size : Nat) (pipe : FilePipe) (kind : PipeEnd) :
    (readLoop size pipe).2.ends kind = pipe.ends kind ∧
      (readLoop size pipe).2.used = pipe.used := by
  induction size generalizing pipe with
  | zero => exact ⟨rfl, rfl⟩
  | succ size ih =>
    simp only [readLoop]
    split
    · exact ⟨rfl, rfl⟩
    · refine (ih _).imp (fun hends => hends.trans ?_) id
      cases kind <;> rfl

lemma writeLoop_ends (bytes : List (BitVec 8)) (pipe : FilePipe) (kind : PipeEnd) :
    (writeLoop bytes pipe).2.ends kind = pipe.ends kind ∧
      (writeLoop bytes pipe).2.used = pipe.used := by
  induction bytes generalizing pipe with
  | nil => exact ⟨rfl, rfl⟩
  | cons byte bytes ih =>
    simp only [writeLoop]
    split
    · refine (ih _).imp (fun hends => hends.trans ?_) id
      cases kind <;> rfl
    · exact ⟨rfl, rfl⟩

end FilePipe

namespace System

variable {sys : System} {id : PipeId}

/-- The number of descriptors of a pipe end. -/
def live (sys : System) (kind : PipeEnd) (id : PipeId) : Nat := census sys.files (.pipe kind id)

@[simp] lemma live_setPipe (sys : System) (id : PipeId) (pipe : FilePipe) :
    (sys.setPipe id pipe).live = sys.live := rfl

@[simp] lemma setPipe_pipes_self (sys : System) (id : PipeId) (pipe : FilePipe) :
    (sys.setPipe id pipe).pipes id = pipe := update_self ..

lemma setPipe_pipes_of_ne (sys : System) {other : PipeId} (hne : other ≠ id)
    (pipe : FilePipe) : (sys.setPipe id pipe).pipes other = sys.pipes other :=
  update_of_ne hne ..

/-- The counters are right, and a pipe with a descriptor is in use. -/
structure Counted (sys : System) : Prop where
  counts : ∀ kind id, ((sys.pipes id).ends kind).toNat = sys.live kind id
  used : ∀ cell kind id, sys.files cell = .pipe kind id → (sys.pipes id).used = true

variable (hsys : sys.Counted)

include hsys

lemma Counted.unused (hfree : (sys.pipes id).used = false)
    (cell : Cell) (kind : PipeEnd) : sys.files cell ≠ .pipe kind id := by
  intro hcell
  rw [hsys.used cell kind id hcell] at hfree
  cases hfree

lemma Counted.live_of_unused
    (hfree : (sys.pipes id).used = false) (kind : PipeEnd) : sys.live kind id = 0 :=
  census_eq_zero_iff.mpr fun cell => hsys.unused hfree cell kind

/-- A change of a pipe that keeps its counters and does not free a slot in use. -/
lemma Counted.setPipe {pipe : FilePipe} (hends : ∀ kind, pipe.ends kind = (sys.pipes id).ends kind)
    (hused : (∃ kind, 0 < sys.live kind id) → pipe.used = true) :
    (sys.setPipe id pipe).Counted where
  counts kind other := by
    rw [live_setPipe, ← hsys.counts]
    by_cases hother : other = id
    · rw [hother, setPipe_pipes_self, hends]
    · rw [setPipe_pipes_of_ne sys hother]
  used cell kind other hcell := by
    by_cases hother : other = id
    · rw [hother, setPipe_pipes_self]
      exact hused ⟨kind, census_pos (hother ▸ hcell)⟩
    · rw [setPipe_pipes_of_ne sys hother]
      exact hsys.used cell kind other hcell

/-- Writing a descriptor that is no pipe over another such descriptor. -/
lemma Counted.setFile {cell : Cell} {file : File} (hold : ∀ kind id, sys.files cell ≠ .pipe kind id)
    (hnew : ∀ kind id, file ≠ .pipe kind id) : (sys.setFile cell file).Counted where
  counts kind id := by
    rw [live, System.setFile, census_update_of_ne (hold kind id) (hnew kind id)]
    exact hsys.counts kind id
  used other kind id hother := by
    by_cases hcell : other = cell
    · simp only [System.setFile, hcell, update_self] at hother
      exact absurd hother (hnew kind id)
    · simp only [System.setFile, update_of_ne hcell] at hother
      exact hsys.used other kind id hother

omit hsys

lemma discard_files (sys : System) (cell : Cell) :
    (sys.discard cell).files = update sys.files cell .none := by
  unfold discard
  cases hcell : sys.files cell with
  | none =>
    dsimp only
    rw [← hcell, update_eq_self]
  | other => rfl
  | pipe kind id => rfl

include hsys

/-- Giving up a descriptor keeps the counters right. -/
lemma Counted.discard (cell : Cell) : (sys.discard cell).Counted := by
  unfold System.discard
  cases hcell : sys.files cell with
  | none => exact hsys
  | other => exact hsys.setFile (by simp [hcell]) (by simp)
  | pipe kind id =>
    have hlive : 0 < sys.live kind id := census_pos hcell
    have hcount := hsys.counts kind id
    have hends : (sys.pipes id).ends kind ≠ 0#8 := by
      intro hzero
      rw [hzero] at hcount
      exact hlive.ne hcount
    have hafter : ∀ other, (((sys.pipes id).close kind).ends other).toNat =
        census (update sys.files cell .none) (.pipe other id) := by
      intro other
      rw [FilePipe.ends_close]
      by_cases hkind : kind = other
      · subst hkind
        rw [FilePipe.ends_releaseEnd_self _ hends, census_update_loss hcell (by simp),
          toNat_pred hends, hcount]
        rfl
      · rw [FilePipe.ends_releaseEnd_of_ne _ hkind,
          census_update_of_ne (by simp [hcell, hkind]) (by simp)]
        exact hsys.counts other id
    constructor
    · intro other id'
      by_cases hid : id' = id
      · subst hid
        simpa [live, System.setPipe, System.setFile] using hafter other
      · have hne : sys.files cell ≠ .pipe other id' := by simp [hcell, Ne.symm hid]
        simpa [live, System.setPipe, System.setFile, hid, census_update_of_ne hne]
          using hsys.counts other id'
    intro cell' other id' hcell'
    by_cases hid : id' = id
    · subst hid
      -- A freed slot has no ends, so no descriptor can be left on it.
      simp only [System.setPipe, System.setFile, update_self] at hcell' ⊢
      by_contra hfree
      have hzero := FilePipe.ends_close_of_unused _ (hsys.used cell kind id' hcell)
        (Bool.eq_false_iff.mpr hfree) other
      have hleft := hafter other
      rw [hzero] at hleft
      exact (census_pos hcell').ne hleft
    · by_cases hsame : cell' = cell
      · simp [System.setFile, hsame] at hcell'
      · simp only [System.setPipe, System.setFile, update_of_ne hsame, update_of_ne hid] at hcell' ⊢
        exact hsys.used cell' other id' hcell'

/-- Counting one more descriptor is right exactly if the counter is not full. -/
lemma Counted.attach_iff {cell : Cell} (hcell : sys.files cell = .none)
    (hused : (sys.pipes id).used = true) :
    (sys.attach cell kind id).Counted ↔ (sys.pipes id).ends kind ≠ 255#8 := by
  have hnone : ∀ other id', sys.files cell ≠ .pipe other id' := by simp [hcell]
  have hlive : (sys.attach cell kind id).live kind id = sys.live kind id + 1 :=
    census_update_gain (hnone kind id)
  have hpipe : ((sys.attach cell kind id).pipes id).ends kind = (sys.pipes id).ends kind + 1#8 := by
    simp [attach, System.setFile]
  constructor
  · intro hattach hfull
    have hcount := hattach.counts kind id
    rw [hlive, hpipe, hfull] at hcount
    exact absurd hcount.symm (Nat.succ_ne_zero _)
  intro hroom
  constructor
  · intro other id'
    by_cases hboth : other = kind ∧ id' = id
    · obtain ⟨rfl, rfl⟩ := hboth
      rw [hlive, hpipe, toNat_succ hroom, hsys.counts]
    have hne : File.pipe kind id ≠ .pipe other id' := by
      rintro heq
      cases heq
      exact hboth ⟨rfl, rfl⟩
    have hsame : (sys.attach cell kind id).live other id' = sys.live other id' :=
      census_update_of_ne (hnone other id') hne
    rw [hsame, ← hsys.counts]
    apply congrArg
    change ((sys.setPipe id ((sys.pipes id).acquireEnd kind)).pipes id').ends other = _
    by_cases hid : id' = id
    · subst hid
      have hkind : kind ≠ other := fun heq => hboth ⟨heq.symm, rfl⟩
      rw [setPipe_pipes_self, FilePipe.ends_acquireEnd_of_ne _ hkind]
    · rw [setPipe_pipes_of_ne sys hid]
  · intro other kind' id' hother
    by_cases hid : id' = id
    · subst hid
      simpa [attach, System.setFile] using hused
    by_cases hsame : other = cell
    · simp only [attach, System.setFile, hsame, update_self] at hother
      cases hother
      exact absurd rfl hid
    · simp only [attach, System.setFile, update_of_ne hsame] at hother
      simpa [attach, System.setFile, System.setPipe, hid] using hsys.used other kind' id' hother

omit hsys

lemma tableAlloc_some {proc : ProcSlot} {start : Nat} {fd : Fd}
    (halloc : sys.tableAlloc proc start = some fd) :
    start ≤ fd.val ∧ sys.files (proc, fd) = .none := by
  simpa using List.find?_some halloc

lemma findUnused_some (hfind : sys.findUnused = some id) : (sys.pipes id).used = false := by
  simpa using List.find?_some hfind

lemma findNamed_some {path : List Char} (hfind : sys.findNamed path = some id) :
    (sys.pipes id).used = true := by
  have hall := List.find?_some hfind
  simp only [Bool.and_eq_true] at hall
  exact hall.1.1.1

/-! ## Copies of descriptors -/

/-- The count of the cloned end does not wrap. -/
def CloneFits (sys : System) (dst src : Cell) : Prop :=
  ∀ kind id, sys.files src = .pipe kind id → sys.files dst ≠ .pipe kind id →
    (sys.pipes id).ends kind ≠ 255#8

include hsys

/-- After giving up a descriptor, a counter is full only if it was full before and
the descriptor was not counted in it. -/
lemma Counted.full_discard_iff (cell : Cell) (kind : PipeEnd) (id : PipeId) :
    ((sys.discard cell).pipes id).ends kind = 255#8 ↔
      sys.files cell ≠ .pipe kind id ∧ (sys.pipes id).ends kind = 255#8 := by
  have hfull : ∀ counter : BitVec 8, counter = 255#8 ↔ counter.toNat = 255 := fun counter =>
    BitVec.toNat_inj.symm
  have hafter := (hsys.discard cell).counts kind id
  have hbefore := hsys.counts kind id
  have hlt := ((sys.pipes id).ends kind).isLt
  rw [live, discard_files] at hafter
  rw [hfull, hfull, hafter, hbefore]
  by_cases hcell : sys.files cell = .pipe kind id
  · rw [census_update_loss hcell (by simp)]
    rw [hbefore] at hlt
    have hbound : census sys.files (.pipe kind id) < 2 ^ 8 := hlt
    simp only [hcell, ne_eq, not_true_eq_false, false_and, iff_false]
    omega
  · rw [census_update_of_ne hcell (by simp)]
    simp [hcell, live]

lemma Counted.clone_iff (dst src : Cell) : (sys.clone dst src).Counted ↔ sys.CloneFits dst src := by
  unfold System.clone
  split
  next hnone =>
    refine iff_of_true hsys fun kind id hsrc => ?_
    rw [hnone] at hsrc
    cases hsrc
  next hactive =>
    have hclear := hsys.discard dst
    have hdst : (sys.discard dst).files dst = .none := by rw [discard_files, update_self]
    by_cases hsame : src = dst
    · -- The source itself is given up, so nothing is left to copy.
      subst hsame
      dsimp only
      rw [hdst]
      refine iff_of_true (hclear.setFile (by simp [hdst]) (by simp)) ?_
      intro kind id hsrc hne
      exact absurd hsrc hne
    have hfile : (sys.discard dst).files src = sys.files src := by
      rw [discard_files, update_of_ne hsame]
    dsimp only
    rw [hfile]
    cases hsrc : sys.files src with
    | none => exact absurd hsrc hactive
    | other =>
      refine iff_of_true (hclear.setFile (by simp [hdst]) (by simp)) ?_
      intro kind id hpipe
      rw [hsrc] at hpipe
      cases hpipe
    | pipe kind id =>
      have hused := hclear.used src kind id (hfile.trans hsrc)
      rw [hclear.attach_iff hdst hused, ne_eq, hsys.full_discard_iff]
      constructor
      · intro hroom kind' id' hpipe hne hfull
        rw [hsrc] at hpipe
        cases hpipe
        exact hroom ⟨hne, hfull⟩
      · intro hfits hfull
        exact hfits kind id hsrc hfull.1 hfull.2

omit hsys

lemma discard_discard (sys : System) (cell : Cell) :
    (sys.discard cell).discard cell = sys.discard cell := by
  have hnone : (sys.discard cell).files cell = .none := by
    rw [discard_files, update_self]
  generalize sys.discard cell = cleared at hnone
  unfold discard
  rw [hnone]

/-- Giving up the destination first changes nothing, since a copy does so itself. -/
lemma dup2_eq_clone (sys : System) (proc : ProcSlot) {src dst : Fd} (hne : src ≠ dst) :
    sys.dup2 proc src dst = sys.clone (proc, dst) (proc, src) := by
  have hcell : ((proc, src) : Cell) ≠ (proc, dst) := fun heq => hne (congrArg Prod.snd heq)
  have hfile : (sys.discard (proc, dst)).files (proc, src) = sys.files (proc, src) := by
    rw [discard_files, update_of_ne hcell]
  unfold dup2 clone
  rw [if_neg hne, discard_discard, hfile]
  split <;> rfl

/-! ## Creation, names and data -/

include hsys

lemma Counted.initPair {readCell writeCell : Cell}
    (hread : sys.files readCell = .none) (hwrite : sys.files writeCell = .none)
    (hne : writeCell ≠ readCell) : (sys.initPair readCell writeCell).Counted := by
  unfold System.initPair
  rcases hfind : sys.findUnused with _ | id
  · exact hsys
  have hfree := findUnused_some hfind
  dsimp only
  generalize hpipe : ({ (sys.pipes id).reset with
    used := true, readers := 1#8, writers := 1#8 } : FilePipe) = pipe
  have hends : ∀ kind, pipe.ends kind = 1#8 := by
    intro kind
    rw [← hpipe]
    cases kind <;> rfl
  have hwrite' : ∀ file, update sys.files readCell file writeCell = .none := by
    intro file
    rw [update_of_ne hne, hwrite]
  constructor
  · intro kind other
    change ((update sys.pipes id pipe other).ends kind).toNat =
      census (update (update sys.files readCell _) writeCell _) _
    by_cases hother : other = id
    · subst hother
      have hzero : census sys.files (.pipe kind other) = 0 := hsys.live_of_unused hfree kind
      rw [update_self, hends]
      cases kind with
      | read =>
        rw [census_update_of_ne (by simp [hwrite']) (by simp),
          census_update_gain (by simp [hread]), hzero]
        rfl
      | write =>
        rw [census_update_gain (by simp [hwrite']),
          census_update_of_ne (by simp [hread]) (by simp), hzero]
        rfl
    · rw [update_of_ne hother, census_update_of_ne (by simp [hwrite']) (by simp [Ne.symm hother]),
        census_update_of_ne (by simp [hread]) (by simp [Ne.symm hother])]
      exact hsys.counts kind other
  · intro cell kind other hcell
    change (update sys.pipes id pipe other).used = true
    by_cases hother : other = id
    · rw [hother, update_self, ← hpipe]
    rw [update_of_ne hother]
    change update (update sys.files readCell _) writeCell _ cell = _ at hcell
    by_cases hw : cell = writeCell
    · rw [hw, update_self] at hcell
      cases hcell
      exact absurd rfl hother
    · rw [update_of_ne hw] at hcell
      by_cases hr : cell = readCell
      · rw [hr, update_self] at hcell
        cases hcell
        exact absurd rfl hother
      · rw [update_of_ne hr] at hcell
        exact hsys.used cell kind other hcell

lemma Counted.openPipePair (proc : ProcSlot) : (sys.openPipePair proc).Counted := by
  unfold System.openPipePair
  rcases hread : sys.tableAlloc proc 3 with _ | readFd
  · exact hsys
  dsimp only
  rcases hwrite : sys.tableAlloc proc (readFd.val + 1) with _ | writeFd
  · exact hsys
  obtain ⟨hlater, hfree⟩ := tableAlloc_some hwrite
  refine hsys.initPair (tableAlloc_some hread).2 hfree fun heq => ?_
  have hfd : writeFd = readFd := congrArg Prod.snd heq
  rw [hfd] at hlater
  omega

lemma Counted.createNamed (path : List Char) : (sys.createNamed path).Counted := by
  unfold System.createNamed
  split
  · exact hsys
  rcases hfind : sys.findUnused with _ | id
  · exact hsys
  have hfree := findUnused_some hfind
  refine hsys.setPipe (fun kind => ?_) fun _ => rfl
  have hcount := hsys.counts kind id
  rw [hsys.live_of_unused hfree kind] at hcount
  rw [show (sys.pipes id).ends kind = 0#8 from BitVec.eq_of_toNat_eq hcount]
  cases kind <;> rfl

lemma Counted.unlinkNamed (path : List Char) : (sys.unlinkNamed path).Counted := by
  unfold System.unlinkNamed
  rcases hfind : sys.findNamed path with _ | id
  · exact hsys
  have hused := findNamed_some hfind
  dsimp only
  split
  next hzero =>
    have hends : ∀ kind, (sys.pipes id).ends kind = 0#8 := by
      rintro (_ | _)
      · exact hzero.1
      · exact hzero.2
    refine hsys.setPipe (fun kind => by rw [FilePipe.ends_reset, hends]) ?_
    rintro ⟨kind, hlive⟩
    rw [← hsys.counts, hends] at hlive
    exact absurd hlive (Nat.lt_irrefl 0)
  · exact hsys.setPipe (fun kind => by cases kind <;> rfl) fun _ => hused

lemma Counted.openNamed_iff (proc : ProcSlot) (path : List Char) (kind : PipeEnd) :
    (sys.openNamed proc path kind).Counted ↔
      ∀ fd ∈ sys.tableAlloc proc 3, ∀ id ∈ sys.findNamed path,
        (sys.pipes id).ends kind ≠ 255#8 := by
  unfold System.openNamed
  rcases halloc : sys.tableAlloc proc 3 with _ | fd
  · simpa using hsys
  cases hfind : sys.findNamed path with
  | none => simpa using hsys
  | some id =>
    simpa using hsys.attach_iff (tableAlloc_some halloc).2 (findNamed_some hfind)

lemma Counted.openAlias_iff (proc : ProcSlot) (src : Fd) : (sys.openAlias proc src).Counted ↔
      ∀ fd ∈ sys.tableAlloc proc 3, sys.CloneFits (proc, fd) (proc, src) := by
  unfold System.openAlias
  cases halloc : sys.tableAlloc proc 3 with
  | none => simpa using hsys
  | some fd => simpa using hsys.clone_iff (proc, fd) (proc, src)

lemma Counted.openVfs (proc : ProcSlot) : (sys.openVfs proc).Counted := by
  unfold System.openVfs
  cases halloc : sys.tableAlloc proc 3 with
  | none => exact hsys
  | some fd => exact hsys.setFile (by simp [(tableAlloc_some halloc).2]) (by simp)

lemma Counted.dup2_iff (proc : ProcSlot) (src dst : Fd) :
    (sys.dup2 proc src dst).Counted ↔ sys.CloneFits (proc, dst) (proc, src) := by
  by_cases hne : src = dst
  · subst hne
    have hsame : sys.dup2 proc src src = sys := if_pos rfl
    rw [hsame]
    exact iff_of_true hsys fun kind id hsrc hdst => absurd hsrc hdst
  · rw [dup2_eq_clone sys proc hne]
    exact hsys.clone_iff _ _

/-- A table that was given up descriptor by descriptor is empty. -/
lemma Counted.discards (proc : ProcSlot) (fds : List Fd) :
    (fds.foldl (fun sys fd => sys.discard (proc, fd)) sys).Counted ∧
      ∀ fd, fd ∈ fds ∨ sys.files (proc, fd) = .none →
        (fds.foldl (fun sys fd => sys.discard (proc, fd)) sys).files (proc, fd) = .none := by
  induction fds generalizing sys with
  | nil => exact ⟨hsys, fun fd hfd => hfd.resolve_left List.not_mem_nil⟩
  | cons first fds ih =>
    obtain ⟨hcounted, hempty⟩ := ih (hsys.discard (proc, first))
    refine ⟨hcounted, fun fd hfd => hempty fd ?_⟩
    by_cases hfirst : fd = first
    · right
      rw [hfirst, discard_files, update_self]
    · have hcell : ((proc, fd) : Cell) ≠ (proc, first) := fun heq => hfirst (congrArg Prod.snd heq)
      rw [discard_files, update_of_ne hcell]
      exact hfd.imp_left fun hmem => (List.mem_cons.mp hmem).resolve_left hfirst

lemma Counted.initStdio (proc : ProcSlot) : (sys.initStdio proc).Counted := by
  obtain ⟨hcounted, hempty⟩ := hsys.discards proc (List.finRange 16)
  have hnone : ∀ fd, (sys.discardFiles proc).files (proc, fd) = .none := fun fd =>
    hempty fd (.inl (List.mem_finRange fd))
  change (sys.discardFiles proc).Counted at hcounted
  refine ((hcounted.setFile ?_ ?_).setFile ?_ ?_).setFile ?_ ?_
  all_goals simp [System.setFile, hnone]

lemma Counted.read (cell : Cell) (size : Nat) : (sys.read cell size).2.Counted := by
  unfold System.read
  split
  next id hcell =>
    dsimp only
    split
    · exact hsys
    split
    · exact hsys
    have hloop := FilePipe.readLoop_ends size (sys.pipes id)
    refine hsys.setPipe (fun kind => (hloop kind).1) fun _ => ?_
    rw [(hloop .read).2]
    exact hsys.used cell .read id hcell
  · exact hsys

lemma Counted.write (cell : Cell) (bytes : List (BitVec 8)) : (sys.write cell bytes).2.Counted := by
  unfold System.write
  split
  next id hcell =>
    dsimp only
    split
    · exact hsys
    split
    · exact hsys
    split
    · exact hsys
    have hloop := FilePipe.writeLoop_ends bytes (sys.pipes id)
    refine hsys.setPipe (fun kind => (hloop kind).1) fun _ => ?_
    rw [(hloop .write).2]
    exact hsys.used cell .write id hcell
  · exact hsys

omit hsys

/-! ## Steps and runs -/

/-- No step makes the count of an end wrap. -/
def Fits (sys : System) : Step → Prop
  | .openNamed proc path kind =>
    ∀ fd ∈ sys.tableAlloc proc 3, ∀ id ∈ sys.findNamed path, (sys.pipes id).ends kind ≠ 255#8
  | .openAlias proc src => ∀ fd ∈ sys.tableAlloc proc 3, sys.CloneFits (proc, fd) (proc, src)
  | .dup2 proc src dst => sys.CloneFits (proc, dst) (proc, src)
  | .clone dst src => sys.CloneFits dst src
  | _ => True

include hsys in
/-- One step keeps the counters right exactly if it fits. -/
lemma Counted.perform_iff (step : Step) : (sys.perform step).Counted ↔ sys.Fits step := by
  cases step with
  | pipe proc => exact iff_of_true (hsys.openPipePair proc) trivial
  | createNamed path => exact iff_of_true (hsys.createNamed path) trivial
  | unlinkNamed path => exact iff_of_true (hsys.unlinkNamed path) trivial
  | openNamed proc path kind => exact hsys.openNamed_iff proc path kind
  | openVfs proc => exact iff_of_true (hsys.openVfs proc) trivial
  | openAlias proc src => exact hsys.openAlias_iff proc src
  | dup2 proc src dst => exact hsys.dup2_iff proc src dst
  | clone dst src => exact hsys.clone_iff dst src
  | discard cell => exact iff_of_true (hsys.discard cell) trivial
  | initStdio proc => exact iff_of_true (hsys.initStdio proc) trivial
  | read cell size => exact iff_of_true (hsys.read cell size) trivial
  | write cell bytes => exact iff_of_true (hsys.write cell bytes) trivial

def RunFits (sys : System) (steps : List Step) : Prop := GuardedRuns.RunFits perform Fits sys steps

lemma counted_boot : boot.Counted where
  counts kind id := by
    refine Eq.trans ?_ (census_eq_zero_iff.mpr fun cell => ?_).symm
    · cases kind <;> rfl
    · simp [boot]
  used cell kind id hcell := by cases hcell

/-- What the lifetime of pipes promises in one state: the counters are the numbers
of live descriptors, no pipe with a descriptor can be handed out again, and a
reader sees the end of the file only if nobody can write. -/
structure Sound (sys : System) : Prop where
  readers : ∀ id, (sys.pipes id).readers.toNat = sys.live .read id
  writers : ∀ id, (sys.pipes id).writers.toNat = sys.live .write id
  notReused : ∀ cell kind id, sys.files cell = .pipe kind id →
    (sys.pipes id).used = true ∧ sys.findUnused ≠ some id
  endOfFile : ∀ cell id size, sys.files cell = .pipe .read id → size ≠ 0 →
    (sys.read cell size).1 = .done [] → sys.live .write id = 0

lemma sound_iff_counted : sys.Sound ↔ sys.Counted := by
  constructor
  · intro hsound
    refine ⟨?_, fun cell kind id hcell => (hsound.notReused cell kind id hcell).1⟩
    rintro (_ | _) id
    · exact hsound.readers id
    · exact hsound.writers id
  intro hsys
  refine ⟨hsys.counts .read, hsys.counts .write, ?_, ?_⟩
  · intro cell kind id hcell
    have hused := hsys.used cell kind id hcell
    refine ⟨hused, fun hfind => ?_⟩
    rw [findUnused_some hfind] at hused
    cases hused
  intro cell id size hcell hsize hread
  unfold System.read at hread
  simp only [hcell, if_neg hsize] at hread
  rw [← hsys.counts]
  split at hread
  · split at hread
    next hwriters =>
      change (sys.pipes id).writers.toNat = 0
      rw [hwriters]
      rfl
    · cases hread
  next hcount =>
    -- A pipe that holds data delivers at least one byte.
    obtain ⟨size, rfl⟩ := Nat.exists_eq_succ_of_ne_zero hsize
    simp [FilePipe.readLoop, hcount] at hread

/-- The lifetime of pipes is right in every state of a run of the file layer
exactly if no step of it counts a descriptor in a counter that stands at 255. -/
theorem pipes_sound_iff (steps : List Step) :
    (∀ n, (boot.run (steps.take n)).Sound) ↔ boot.RunFits steps := by
  simp only [sound_iff_counted]
  exact GuardedRuns.run_take_iff Counted (fun _ step hsys => hsys.perform_iff step)
    counted_boot steps

end System

section

local instance fdCount : NeZero 16 := ⟨by decide⟩

/-- A process fills its table with descriptors on the write end of one pipe, forks
sixteen times, and one child puts a further one in place of its read end. -/
def wrapCalls : List Call := [.single (.initStdio 0), .single (.pipe 0)] ++
  ([0, 1, 2, 5, 6, 7, 8, 9, 10, 11, 12, 13, 14, 15].map fun fd => .single (.dup2 0 4 fd)) ++
  ([1, 2, 3, 4, 5, 6, 7, 8, 9, 10, 11, 12, 13, 14, 15, 16].map fun child => .fork 0 child true) ++
  [.single (.dup2 1 4 3)]

end

/-- The 256 descriptors on the write end are counted as none, and a reader is told
that the file has ended while the first of them is still open. -/
theorem writers_wrap : ((System.boot.run (wrapCalls.flatMap Call.steps)).pipes 0).writers = 0#8 ∧
    (System.boot.run (wrapCalls.flatMap Call.steps)).files (0, 4) = .pipe .write 0 ∧
    (System.boot.run (wrapCalls.flatMap Call.steps)).files (0, 3) = .pipe .read 0 ∧
    ((System.boot.run (wrapCalls.flatMap Call.steps)).read (0, 3) 1).1 = .done [] := by
  decide +kernel

/-! ## Calls that fail -/

namespace System

variable {sys : System} {proc : ProcSlot}

/-- `fs_service_dup2` with the numbers that a process passes. -/
def dup2Call (sys : System) (proc : ProcSlot) (srcFd dstFd : Nat) : Option Nat × System :=
  if h : srcFd < 16 ∧ dstFd < 16 then
    let src : Cell := (proc, ⟨srcFd, h.1⟩)
    let dst : Cell := (proc, ⟨dstFd, h.2⟩)
    if srcFd = dstFd then (some srcFd, sys)
    else if sys.files src = .none then (none, sys)
    else
      let cleared := sys.discard dst
      if cleared.files src = .none then (none, cleared) else (some dstFd, cleared.clone dst src)
  else (none, sys)

/-- The descriptors that `file_table_open_pipe_pair` returns. -/
def pipePair (sys : System) (proc : ProcSlot) : Option (Fd × Fd) :=
  (sys.tableAlloc proc 3).bind fun readFd =>
    (sys.tableAlloc proc (readFd.val + 1)).bind fun writeFd =>
      sys.findUnused.map fun _ => (readFd, writeFd)

/-- How a call for a pair of pipe ends comes back. -/
inductive PipeResult where
  | done (readFd writeFd : Fd)
  | error
  | killed
  deriving DecidableEq

/-- `syscall_common_request_core_pipe_transfer`. The numbers are copied to the process when the
pipe is open. If that fails, a hook `bad_pointer` kills the process with its descriptors
(`syscall_kill_bad_user_pointer`, which the native calls set), and without a hook an error is
returned (as for the calls of 32-bit processes). -/
def pipeTransfer (sys : System) (proc : ProcSlot) (copied hook : Bool) : PipeResult × System :=
  let opened := sys.openPipePair proc
  match sys.pipePair proc with
  | none => (.error, opened)
  | some (readFd, writeFd) =>
    if copied then (.done readFd writeFd, opened)
    else if hook then (.killed, opened.discardFiles proc)
    else (.error, opened)

/-- Two free descriptors and an unused pipe. -/
def PairFree (sys : System) (proc : ProcSlot) : Prop :=
  (∃ first second : Fd, 3 ≤ first.val ∧ first < second ∧ sys.files (proc, first) = .none ∧
    sys.files (proc, second) = .none) ∧ ∃ id, (sys.pipes id).used = false

/-- The search finds the first one that is free. -/
lemma exists_tableAlloc {start : Nat} {fd : Fd} (hstart : start ≤ fd.val)
    (hfree : sys.files (proc, fd) = .none) :
    ∃ found, sys.tableAlloc proc start = some found ∧ found ≤ fd := by
  have hsome : (sys.tableAlloc proc start).isSome := by
    simp only [tableAlloc, List.find?_isSome]
    exact ⟨fd, List.mem_finRange fd, by simp [hstart, hfree]⟩
  obtain ⟨found, hfound⟩ := isSome_iff_exists.mp hsome
  refine ⟨found, hfound, ?_⟩
  obtain ⟨-, before, after, hlist, hnone⟩ := List.find?_eq_some_iff_append.mp hfound
  have hsorted := List.pairwise_lt_finRange 16
  have hmem := List.mem_finRange fd
  rw [hlist] at hsorted hmem
  rcases List.mem_append.mp hmem with hbefore | hafter
  · simpa [hstart, hfree] using hnone fd hbefore
  · rcases List.mem_cons.mp hafter with rfl | hafter
    · exact le_rfl
    · exact (List.rel_of_pairwise_cons (List.pairwise_append.mp hsorted).2.1 hafter).le

lemma pipePair_eq_none_iff : sys.pipePair proc = none ↔ ¬sys.PairFree proc := by
  rw [← not_iff_not, not_not]
  constructor
  · intro hpair
    obtain ⟨pair, hpair⟩ := ne_none_iff_exists'.mp hpair
    obtain ⟨first, hfirst, hrest⟩ := bind_eq_some_iff.mp hpair
    obtain ⟨second, hsnd, hfound⟩ := bind_eq_some_iff.mp hrest
    obtain ⟨id, hid, -⟩ := map_eq_some_iff.mp hfound
    exact ⟨⟨first, second, (tableAlloc_some hfirst).1, (tableAlloc_some hsnd).1,
      (tableAlloc_some hfirst).2, (tableAlloc_some hsnd).2⟩, id, findUnused_some hid⟩
  · rintro ⟨⟨first, second, hstart, hlt, hfirst, hsnd⟩, id, hid⟩
    obtain ⟨readFd, hread, hle⟩ := exists_tableAlloc hstart hfirst
    obtain ⟨writeFd, hwrite, -⟩ := exists_tableAlloc (Nat.succ_le_of_lt (hle.trans_lt hlt)) hsnd
    have hunused : sys.findUnused ≠ none := by
      simp only [findUnused, ne_eq, List.find?_eq_none, not_forall]
      exact ⟨id, List.mem_finRange id, by simp [hid]⟩
    simpa [pipePair, hread, hwrite] using hunused

/-- The call changes the table of the process exactly if it finds a pair. -/
lemma openPipePair_eq_iff : sys.openPipePair proc = sys ↔ sys.pipePair proc = none := by
  unfold openPipePair pipePair
  rcases hread : sys.tableAlloc proc 3 with _ | readFd
  · simp
  rcases hwrite : sys.tableAlloc proc (readFd.val + 1) with _ | writeFd
  · simp [hwrite]
  rcases hunused : sys.findUnused with _ | id
  · simp [hwrite, initPair, hunused]
  simp only [bind_some, hwrite, map_some, reduceCtorEq, iff_false]
  intro hsame
  have hfile := congrFun (congrArg System.files hsame) (proc, writeFd)
  rw [(tableAlloc_some hwrite).2] at hfile
  simp [initPair, hunused, System.setFile] at hfile

/-- A call for a pipe that returns an error leaves everything as it was, unless the pipe was
opened, its numbers could not be copied and there is no hook. With a hook the process is gone, and
the counters are right again. A `dup2` that fails always leaves everything as it was. -/
theorem failed_calls_keep_iff (sys : System) (proc : ProcSlot) (copied hook : Bool) :
    ((∀ sys', sys.pipeTransfer proc copied hook = (.error, sys') → sys' = sys) ↔
        copied = true ∨ hook = true ∨ ¬sys.PairFree proc) ∧
      (∀ sys', sys.Counted → sys.pipeTransfer proc copied hook = (.killed, sys') →
        sys'.Counted ∧ ∀ fd, sys'.files (proc, fd) = .none) ∧
      ∀ srcFd dstFd sys', sys.dup2Call proc srcFd dstFd = (none, sys') → sys' = sys := by
  refine ⟨?_, ?_, ?_⟩
  · rw [← pipePair_eq_none_iff]
    rcases hpair : sys.pipePair proc with _ | ⟨readFd, writeFd⟩
    · simp [pipeTransfer, hpair, openPipePair_eq_iff.mpr hpair]
    · cases copied <;> cases hook <;> simp [pipeTransfer, hpair, openPipePair_eq_iff]
  · intro sys' hsys hkilled
    obtain rfl : (sys.openPipePair proc).discardFiles proc = sys' := by
      unfold pipeTransfer at hkilled
      split at hkilled
      · cases hkilled
      · split_ifs at hkilled
        · cases hkilled
        · exact (Prod.mk.inj hkilled).2
        · cases hkilled
    obtain ⟨hcounted, hempty⟩ := (hsys.openPipePair proc).discards proc (List.finRange 16)
    exact ⟨hcounted, fun fd => hempty fd (.inl (List.mem_finRange fd))⟩
  · intro srcFd dstFd sys' hfail
    unfold dup2Call at hfail
    split at hfail
    next hrange =>
      dsimp only at hfail
      split at hfail
      · cases hfail
      next hne =>
        split at hfail
        · exact (Prod.mk.inj hfail).2.symm
        next hactive =>
          -- the source is another descriptor, so that it is still active
          rw [discard_files, update_of_ne (by simpa using hne), if_neg hactive] at hfail
          cases hfail
    · exact (Prod.mk.inj hfail).2.symm

/-- A 32-bit process passes a bad pointer, and the pipe stays open. -/
theorem pipe_open_after_bad_pointer :
    let sys := boot.initStdio 0
    let after := (sys.pipeTransfer 0 false false).2
    (sys.pipeTransfer 0 false false).1 = .error ∧ sys.files (0, 3) = .none ∧
      (sys.pipes 0).writers = 0#8 ∧ after.files (0, 3) = .pipe .read 0 ∧
      (after.pipes 0).writers = 1#8 := by
  decide +kernel

end System

end NexOS.File
