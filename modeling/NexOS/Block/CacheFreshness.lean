import NexOS.Block.ReadCache
import NexOS.Lib.GuardedRuns

/-! # Freshness of the read cache

A read may return a copy from the cache, so the copies have to be as new as the
last completed write. A write forgets the copies of its blocks when it finishes.
Two steps can bring an old copy back or leave one: a read that enters what it
fetched before a write completed, and an asynchronous write, which forgets
nothing. Without those two, every read returns what the last write before it
stored, or something newer.
-/

namespace NexOS.Block

open Function GuardedRuns

variable {α : Type*}
  {lba block : Lba} {dev : Device} {cache : CacheSlot → Option (CacheEntry α)} {count : Nat}
  {disk : Device × Lba → Versioned α} {floors : Lba → Nat} {data : List α} {slot : CacheSlot}
  {entry : CacheEntry α}

/-! ## Ranges of blocks -/

lemma inRange_first (lba : Lba) (count : Nat) : inRange lba (count + 1) lba = true := by
  simp [inRange]

lemma inRange_rest (hblock : inRange (lba + 1) count block = true) :
    inRange lba (count + 1) block = true := by
  simp only [inRange, decide_eq_true_eq] at hblock ⊢
  bv_omega

lemma eq_of_inRange_one (hblock : inRange lba 1 block = true) : block = lba := by
  simp only [inRange, decide_eq_true_eq] at hblock
  bv_omega

/-- A range that ends below its start wraps around; every other range lies
between its start and its end. -/
lemma between_of_inRange (hcount : count < 2 ^ 32) (hblock : inRange lba count block = true)
    (hstop : ¬ lba + BitVec.ofNat 64 count < lba) :
    lba ≤ block ∧ block < lba + BitVec.ofNat 64 count := by
  simp only [inRange, decide_eq_true_eq] at hblock
  constructor <;> bv_omega

lemma invalidateDevice_some (hentry : invalidateDevice cache dev slot = some entry) :
    cache slot = some entry ∧ entry.dev ≠ dev := by
  simpa [invalidateDevice] using hentry

/-- Invalidating a range only takes copies away. -/
lemma invalidateRange_some (hentry : invalidateRange cache dev lba count slot = some entry) :
    cache slot = some entry := by
  unfold invalidateRange at hentry
  split at hentry
  · exact (invalidateDevice_some hentry).1
  · exact (Option.filter_eq_some_iff.mp hentry).1

/-- What is left in the cache lies outside the invalidated range. -/
lemma outside_of_invalidateRange (hcount : count < 2 ^ 32)
    (hentry : invalidateRange cache dev lba count slot = some entry) :
    ¬(entry.dev = dev ∧ inRange lba count entry.lba = true) := by
  rintro ⟨hdev, hblock⟩
  unfold invalidateRange at hentry
  split at hentry
  · exact (invalidateDevice_some hentry).2 hdev
  next hstop =>
    obtain ⟨hlow, hhigh⟩ := between_of_inRange hcount hblock hstop
    have hkept := (Option.filter_eq_some_iff.mp hentry).2
    simp [hdev, hlow, hhigh] at hkept

/-! ## Data that is new enough -/

/-- Each of the data was held by its block since the given version. -/
def AllSince (disk : Device × Lba → Versioned α) (dev : Device) (floors : Lba → Nat) :
    Lba → List α → Prop
  | _, [] => True
  | lba, data :: rest =>
    (disk (dev, lba)).Since (floors lba) data ∧ AllSince disk dev floors (lba + 1) rest

/-- No block loses a version. -/
def Grows (before after : Device × Lba → Versioned α) : Prop :=
  ∀ block, (before block).Extends (after block)

lemma grows_writeDisk (disk : Device × Lba → Versioned α) (dev : Device) (lba : Lba)
    (data : List α) : Grows disk (writeDisk disk dev lba data) := by
  induction data generalizing disk lba with
  | nil => exact fun block => (disk block).extends_refl
  | cons first rest ih =>
    intro block
    refine Versioned.Extends.trans ?_ (ih _ (lba + 1) block)
    by_cases hblock : block = (dev, lba)
    · rw [hblock, update_self]
      exact (disk (dev, lba)).extends_write first
    · rw [update_of_ne hblock]
      exact (disk block).extends_refl

lemma AllSince.grow {before after : Device × Lba → Versioned α} (hgrows : Grows before after)
    (hdata : AllSince before dev floors lba data) : AllSince after dev floors lba data := by
  induction data generalizing lba with
  | nil => trivial
  | cons first rest ih => exact ⟨(hgrows _).since _ _ hdata.1, ih hdata.2⟩

/-- Lower floors on the blocks of the range are met as well. -/
lemma AllSince.mono {lower : Lba → Nat} (hdata : AllSince disk dev floors lba data)
    (hlower : ∀ block, inRange lba data.length block = true → lower block ≤ floors block) :
    AllSince disk dev lower lba data := by
  induction data generalizing lba with
  | nil => trivial
  | cons first rest ih =>
    refine ⟨hdata.1.mono (hlower lba (inRange_first lba _)), ih hdata.2 fun block hblock => ?_⟩
    exact hlower block (inRange_rest hblock)

lemma allSince_readDisk (hfloors : ∀ block, floors block ≤ (disk (dev, block)).latest)
    (lba : Lba) (count : Nat) : AllSince disk dev floors lba (readDisk disk dev lba count) := by
  induction count generalizing lba with
  | zero => trivial
  | succ count ih => exact ⟨Versioned.since_now (hfloors lba), ih (lba + 1)⟩

/-- Every copy in the cache was held since the given versions. -/
def Fresh (disk : Device × Lba → Versioned α) (floors : Device × Lba → Nat)
    (cache : CacheSlot → Option (CacheEntry α)) : Prop :=
  ∀ slot entry, cache slot = some entry →
    (disk (entry.dev, entry.lba)).Since (floors (entry.dev, entry.lba)) entry.data

lemma Fresh.of_subset {floors : Device × Lba → Nat} {fewer : CacheSlot → Option (CacheEntry α)}
    (hfresh : Fresh disk floors cache)
    (hfewer : ∀ slot entry, fewer slot = some entry → cache slot = some entry) :
    Fresh disk floors fewer :=
  fun slot entry hentry => hfresh slot entry (hfewer slot entry hentry)

lemma Fresh.lookup {floors : Device × Lba → Nat} (hfresh : Fresh disk floors cache)
    (hlook : lookup cache dev lba count = some data) :
    AllSince disk dev (fun block => floors (dev, block)) lba data := by
  induction count generalizing lba data with
  | zero =>
    cases hlook
    trivial
  | succ count ih =>
    unfold Block.lookup at hlook
    rcases hslot : cache (cacheIndex dev lba) with _ | entry
    · simp [hslot] at hlook
    simp only [hslot] at hlook
    split at hlook
    next hentry =>
      obtain ⟨rest, hrest, rfl⟩ := Option.map_eq_some_iff.mp hlook
      have hfirst := hfresh _ entry hslot
      rw [hentry.1, hentry.2] at hfirst
      exact ⟨hfirst, ih hrest⟩
    · cases hlook

/-- Entering data that is new enough keeps the cache fresh. -/
lemma Fresh.fill {floors : Device × Lba → Nat} (hfresh : Fresh disk floors cache)
    (hdata : AllSince disk dev (fun block => floors (dev, block)) lba data) :
    Fresh disk floors (fill cache dev lba data) := by
  induction data generalizing cache lba with
  | nil => exact hfresh
  | cons first rest ih =>
    refine ih (fun slot entry hslot => ?_) hdata.2
    by_cases hindex : slot = cacheIndex dev lba
    · rw [hindex, update_self] at hslot
      cases hslot
      exact hdata.1
    · rw [update_of_ne hindex] at hslot
      exact hfresh slot entry hslot

namespace Layer

variable {layer : Layer α} {call : Call α}

/-! ## The invariant -/

/-- What a call under way knows about the versions it may return. -/
def CallSound (layer : Layer α) : Call α → Prop
  | .reading dev _ _ floors => ∀ block, floors block ≤ layer.settled (dev, block)
  | .missed dev _ _ floors => ∀ block, floors block ≤ layer.settled (dev, block)
  | .fetched dev lba data marks floors =>
    (∀ block, floors block ≤ marks block) ∧ AllSince layer.disk dev marks lba data
  | .returned dev lba data floors => AllSince layer.disk dev floors lba data
  | .writing _ _ data => data.length < 2 ^ 32
  | .written dev _ count _ marks =>
    count < 2 ^ 32 ∧ ∀ block, marks block ≤ (layer.disk (dev, block)).latest
  | .failed .. => True
  | .idle => True

/-- What the layer keeps in every reachable state. -/
structure Sound (layer : Layer α) : Prop where
  settled : ∀ block, layer.settled block ≤ (layer.disk block).latest
  cache : Fresh layer.disk layer.settled layer.cache
  calls : ∀ caller, layer.CallSound (layer.calls caller)

variable {next : Layer α}

/-- What a call knows stays true while versions are added and writes complete. -/
lemma CallSound.mono (hgrows : Grows layer.disk next.disk)
    (hsettled : ∀ block, layer.settled block ≤ next.settled block) (hcall : layer.CallSound call) :
    next.CallSound call := by
  cases call with
  | idle => trivial
  | reading dev lba count floors => exact fun block => (hcall block).trans (hsettled _)
  | missed dev lba count floors => exact fun block => (hcall block).trans (hsettled _)
  | fetched dev lba data marks floors => exact ⟨hcall.1, hcall.2.grow hgrows⟩
  | failed dev lba count => trivial
  | returned dev lba data floors => exact AllSince.grow hgrows hcall
  | writing dev lba data => exact hcall
  | written dev lba count ok marks =>
    exact ⟨hcall.1, fun block => (hcall.2 block).trans (hgrows _).latest_le⟩

/-- Every step adds versions, completes writes, and moves at most one call. -/
lemma Sound.advance (hlayer : layer.Sound) (hgrows : Grows layer.disk next.disk)
    (hmono : ∀ block, layer.settled block ≤ next.settled block)
    (hsettled : ∀ block, next.settled block ≤ (next.disk block).latest)
    (hcache : Fresh next.disk next.settled next.cache)
    (hcalls : ∀ caller, next.calls caller = layer.calls caller ∨
      next.CallSound (next.calls caller)) : next.Sound where
  settled := hsettled
  cache := hcache
  calls caller := by
    obtain hsame | hnew := hcalls caller
    · rw [hsame]
      exact (hlayer.calls caller).mono hgrows hmono
    · exact hnew

lemma grows_refl (disk : Device × Lba → Versioned α) : Grows disk disk :=
  fun block => (disk block).extends_refl

/-- A step that only moves one call. -/
lemma Sound.setCall (hlayer : layer.Sound) {caller : Nat} (hcall : layer.CallSound call) :
    (layer.setCall caller call).Sound := by
  refine hlayer.advance (grows_refl _) (fun _ => le_rfl) hlayer.settled hlayer.cache ?_
  intro other
  by_cases hother : other = caller
  · right
    change (layer.setCall caller call).CallSound (update layer.calls caller call other)
    rw [hother, update_self]
    exact hcall.mono (grows_refl _) fun _ => le_rfl
  · exact .inl (update_of_ne hother ..)

/-- A step that changes the copies, and at most one call with them. -/
lemma Sound.setCache (hlayer : layer.Sound) (hcache : Fresh layer.disk layer.settled cache)
    {caller : Nat} (hcall : layer.CallSound call) :
    ({ layer with cache := cache, calls := update layer.calls caller call } : Layer α).Sound := by
  have hmoved : (layer.setCall caller call).Sound := hlayer.setCall hcall
  exact ⟨hmoved.settled, hcache, fun other => (hmoved.calls other).mono (grows_refl _)
    fun _ => le_rfl⟩

/-- The step leaves no copy behind that is older than a completed write: a read
enters only what no write has overtaken, and an asynchronous write finds no copy
of its blocks in the cache. -/
def Fits (layer : Layer α) : Step α → Prop
  | .readFinish caller =>
    match layer.calls caller with
    | .fetched dev lba data marks _ => layer.sectored dev = true →
        ∀ block, inRange lba data.length block = true → layer.settled (dev, block) ≤ marks block
    | _ => True
  | .drainNext ok _ =>
    match layer.draining with
    | some ⟨request :: _, _⟩ => ok = true → request.kind = .write →
        ∀ slot entry, layer.cache slot = some entry → ¬(entry.dev = request.dev ∧
            inRange request.lba (request.data.take request.count).length entry.lba = true)
    | _ => True
  | _ => True

variable (hlayer : layer.Sound) {steps : List (Step α)}

include hlayer

lemma Sound.performLookup (caller : Nat) : (layer.performLookup caller).Sound := by
  unfold Layer.performLookup
  have hcall := hlayer.calls caller
  split
  next dev lba count floors hreading =>
    rw [hreading] at hcall
    split
    next data hdata =>
      split at hdata
      · refine hlayer.setCall ((hlayer.cache.lookup hdata).mono fun block _ => ?_)
        exact hcall block
      · cases hdata
    · exact hlayer.setCall hcall
  · exact hlayer

lemma Sound.performDeviceRead (caller : Nat) (ok : Bool) :
    (layer.performDeviceRead caller ok).Sound := by
  unfold Layer.performDeviceRead
  have hcall := hlayer.calls caller
  split
  next dev lba count floors hmissed =>
    rw [hmissed] at hcall
    cases ok with
    | false => exact hlayer.setCall trivial
    | true =>
      refine hlayer.setCall ⟨fun block => ?_, allSince_readDisk (fun _ => le_rfl) lba count⟩
      exact (hcall block).trans (hlayer.settled _)
  · exact hlayer

lemma Sound.performReadFinish (caller : Nat)
    (hfits : layer.Fits (.readFinish caller)) : (layer.performReadFinish caller).Sound := by
  unfold Layer.performReadFinish
  unfold Fits at hfits
  have hcall := hlayer.calls caller
  split
  next dev lba data marks floors hfetched =>
    rw [hfetched] at hcall
    simp only [hfetched] at hfits
    refine hlayer.setCache ?_ (hcall.2.mono fun block _ => hcall.1 block)
    split
    next hsectored => exact hlayer.cache.fill (hcall.2.mono (hfits hsectored))
    · exact hlayer.cache
  next dev lba count hfail =>
    refine hlayer.setCache ?_ trivial
    split
    · exact Fresh.of_subset hlayer.cache fun slot entry => invalidateRange_some
    · exact hlayer.cache
  · exact hlayer

/-- Storing data on a device. Copies may be older than it until they are forgotten. -/
lemma Sound.writeDisk (dev : Device) (lba : Lba) (data : List α) :
    ({ layer with disk := writeDisk layer.disk dev lba data } : Layer α).Sound := by
  have hgrows := grows_writeDisk layer.disk dev lba data
  refine hlayer.advance hgrows (fun _ => le_rfl) (fun block => ?_) ?_ fun _ => .inl rfl
  · exact (hlayer.settled block).trans (hgrows block).latest_le
  · exact fun slot entry hentry => (hgrows _).since _ _ (hlayer.cache slot entry hentry)

lemma Sound.performDeviceWrite (caller : Nat) (ok : Bool)
    (stored : Nat) : (layer.performDeviceWrite caller ok stored).Sound := by
  unfold Layer.performDeviceWrite
  have hcall := hlayer.calls caller
  split
  next dev lba data hwriting =>
    rw [hwriting] at hcall
    exact (hlayer.writeDisk dev lba _).setCall ⟨hcall, fun _ => le_rfl⟩
  · exact hlayer

/-- The completion of a write whose blocks have no copies left. -/
lemma Sound.settle {marks : Lba → Nat}
    (hmarks : ∀ block, marks block ≤ (layer.disk (dev, block)).latest)
    (houtside : ∀ slot entry, layer.cache slot = some entry →
      ¬(entry.dev = dev ∧ inRange lba count entry.lba = true)) :
    (layer.settle dev lba count marks).Sound := by
  refine hlayer.advance (grows_refl _) (fun block => ?_) (fun block => ?_) ?_ fun _ => .inl rfl
  · unfold Layer.settle
    dsimp only
    split
    · exact le_max_left _ _
    · exact le_rfl
  · unfold Layer.settle
    dsimp only
    split
    next hblock =>
      refine max_le (hlayer.settled block) ?_
      obtain ⟨dev', lba'⟩ := block
      obtain ⟨rfl, -⟩ := hblock
      exact hmarks lba'
    · exact hlayer.settled block
  · intro slot entry hentry
    have hsame : (layer.settle dev lba count marks).settled (entry.dev, entry.lba) =
        layer.settled (entry.dev, entry.lba) := if_neg (houtside slot entry hentry)
    rw [hsame]
    exact hlayer.cache slot entry hentry

lemma Sound.performWriteFinish (caller : Nat) : (layer.performWriteFinish caller).Sound := by
  unfold Layer.performWriteFinish
  have hcall := hlayer.calls caller
  split
  next dev lba count ok marks hwrote =>
    rw [hwrote] at hcall
    have hnext : ({ layer with
        cache := invalidateRange layer.cache dev lba count
        calls := update layer.calls caller .idle } : Layer α).Sound :=
      hlayer.setCache (Fresh.of_subset hlayer.cache fun slot entry => invalidateRange_some) trivial
    cases ok with
    | false => exact hnext
    | true =>
      refine hnext.settle hcall.2 fun slot entry hentry => ?_
      exact outside_of_invalidateRange hcall.1 hentry
  · exact hlayer

/-- The queue of requests is no part of what is promised. -/
lemma Sound.setQueue (queue : List (Request α)) (draining : Option (Drain α)) :
    ({ layer with queue := queue, draining := draining } : Layer α).Sound :=
  hlayer.advance (grows_refl _) (fun _ => le_rfl) hlayer.settled hlayer.cache fun _ => .inl rfl

lemma Sound.performSubmit (size : Nat) (req : Request α) :
    (layer.performSubmit size req).Sound := by
  unfold Layer.performSubmit
  split
  · exact hlayer
  split
  · split
    · exact hlayer.setQueue _ _
    · split <;> exact hlayer.setQueue _ _
  · exact hlayer.setQueue _ _

lemma Sound.performDrainNext (ok : Bool) (stored : Nat)
    (hfits : layer.Fits (.drainNext ok stored)) : (layer.performDrainNext ok stored).Sound := by
  unfold Layer.performDrainNext
  unfold Fits at hfits
  split
  next req remaining pending hdraining =>
    simp only [hdraining] at hfits
    have hrest := hlayer.setQueue layer.queue (some ⟨remaining, pending⟩)
    cases hkind : req.kind with
    | read => exact hrest
    | write =>
      cases ok with
      | false => exact hrest.writeDisk req.dev req.lba _
      | true =>
        have hnext := hrest.writeDisk req.dev req.lba (req.data.take req.count)
        exact hnext.settle (fun _ => le_rfl) (hfits rfl hkind)
  · exact hlayer

/-- One step that fits keeps the layer sound. -/
lemma Sound.perform {step : Step α} (hfits : layer.Fits step) : (layer.perform step).Sound := by
  cases step with
  | readBegin caller dev lba count =>
    simp only [Layer.perform]
    split
    · exact hlayer.setCall (show ∀ block, _ from fun block => le_rfl)
    · exact hlayer
  | lookup caller => exact hlayer.performLookup caller
  | deviceRead caller ok => exact hlayer.performDeviceRead caller ok
  | readFinish caller => exact hlayer.performReadFinish caller hfits
  | writeBegin caller dev lba data =>
    simp only [Layer.perform]
    split
    next hbegin => exact hlayer.setCall hbegin.2.2
    · exact hlayer
  | deviceWrite caller ok stored => exact hlayer.performDeviceWrite caller ok stored
  | writeFinish caller => exact hlayer.performWriteFinish caller
  | submit size req => exact hlayer.performSubmit size req
  | drainStart =>
    simp only [Layer.perform, performDrainStart]
    split
    · exact hlayer
    · exact hlayer.setQueue _ _
  | drainNext ok stored => exact hlayer.performDrainNext ok stored hfits
  | drainEnd =>
    simp only [Layer.perform, performDrainEnd]
    split
    · exact hlayer.setQueue _ _
    · exact hlayer
  | forget dev =>
    refine hlayer.advance (grows_refl _) (fun _ => le_rfl) hlayer.settled ?_ fun _ => .inl rfl
    exact Fresh.of_subset hlayer.cache fun slot entry hentry => (invalidateDevice_some hentry).1

omit hlayer

/-! ## Runs -/

lemma sound_init (sectored : Device → Bool) (contents : Device × Lba → α) :
    (init sectored contents).Sound where
  settled _ := Nat.zero_le _
  cache slot entry hentry := by cases hentry
  calls caller := trivial

/-- In every state of a run whose steps fit, what a read returned is, block by
block, the data of the last write that had completed when the read began, or that
of a later write. -/
theorem read_returns_fresh (sectored : Device → Bool) (contents : Device × Lba → α)
    (steps : List (Step α)) (hfits : RunFits perform Fits (init sectored contents) steps)
    (n caller : Nat) (dev : Device) (lba : Lba) (data : List α) (floors : Lba → Nat)
    (hreturned : (run perform (init sectored contents) (steps.take n)).calls caller =
      .returned dev lba data floors) :
    AllSince (run perform (init sectored contents) (steps.take n)).disk dev floors lba data := by
  rw [← steps.take_append_drop n, runFits_append] at hfits
  have hsound := run_preserves Sound (fun _ _ hlayer hstep => hlayer.perform hstep)
    (sound_init sectored contents) hfits.1
  have hcall := hsound.calls caller
  rw [hreturned] at hcall
  exact hcall

/-- A layer over devices of zeros. -/
def zeroed : Layer Nat := init (fun _ => true) fun _ => 0

/-- A read of block 7 of device 64, from begin to end. -/
def wholeRead (caller : Nat) : List (Step Nat) :=
  [.readBegin caller 64 7 1, .lookup caller, .deviceRead caller true, .readFinish caller]

/-- A write of block 7 of device 64, from begin to end. -/
def wholeWrite (caller value : Nat) : List (Step Nat) :=
  [.writeBegin caller 64 7 [value], .deviceWrite caller true 0, .writeFinish caller]

/-- A read, a write and a second read of one block. -/
theorem read_returns_fresh_after_write :
    ∃ floors, (run perform zeroed (wholeRead 0 ++ wholeWrite 1 5 ++ wholeRead 0)).calls 0 =
        .returned 64 7 [5] floors ∧ floors 7 = 1 ∧
      AllSince (run perform zeroed (wholeRead 0 ++ wholeWrite 1 5 ++ wholeRead 0)).disk 64
        floors 7 [5] := by
  refine ⟨_, rfl, rfl, read_returns_fresh (fun _ => true) (fun _ => 0)
    (wholeRead 0 ++ wholeWrite 1 5 ++ wholeRead 0) ?_ 11 0 64 7 [5] _ rfl⟩
  refine ⟨trivial, trivial, trivial, ?_, trivial, trivial, trivial, trivial, trivial, trivial,
    ?_, trivial⟩
  · intro _ block _
    exact Nat.zero_le _
  · intro _ block hblock
    obtain rfl : block = 7 := eq_of_inRange_one hblock
    exact Nat.le_refl 1

/-- The block is written by an asynchronous request while a copy is cached. -/
def asyncRun : List (Step Nat) := wholeRead 0 ++
    [.submit 512 ⟨64, 7, 1, .write, 0, false, [5]⟩, .drainStart, .drainNext true 0, .drainEnd,
      .readBegin 0 64 7 1, .lookup 0]

/-- The block is written between the transfer of a read and its last step. -/
def racingRun : List (Step Nat) :=
  [.readBegin 0 64 7 1, .lookup 0, .deviceRead 0 true] ++ wholeWrite 1 5 ++
    [.readFinish 0, .readBegin 0 64 7 1, .lookup 0]

lemma not_allSince_overwritten {disk : Device × Lba → Versioned Nat}
    (hversions : (disk (64, 7)).versions = [0, 5]) (hfloor : floors 7 = 1) :
    ¬AllSince disk 64 floors 7 [0] := by
  rintro ⟨⟨version, hversion, hvalue⟩, -⟩
  rw [hfloor] at hversion
  rw [hversions] at hvalue
  match version with
  | 1 => cases hvalue
  | _ + 2 => cases hvalue

/-- An asynchronous write leaves the copy of its block in the cache, and a read
that enters its data late brings an old one back. A read that begins after the
write returns it. -/
theorem stale_copy_returned :
    (∃ floors, (run perform zeroed asyncRun).calls 0 = .returned 64 7 [0] floors ∧
      ¬AllSince (run perform zeroed asyncRun).disk 64 floors 7 [0]) ∧
    ∃ floors, (run perform zeroed racingRun).calls 0 = .returned 64 7 [0] floors ∧
      ¬AllSince (run perform zeroed racingRun).disk 64 floors 7 [0] :=
  ⟨⟨_, rfl, not_allSince_overwritten rfl rfl⟩, _, rfl, not_allSince_overwritten rfl rfl⟩

end Layer

end NexOS.Block
