import NexOS.Nxfs.Growth

/-! # When growing a file strands blocks

A file grows by the free run behind its last extent and then by the longest free
runs of the volume, one extent each. If the runs or the extents run out after
some blocks were taken, these stay marked. Whether that happens can be told from
the bitmap and the inode before the call.
-/

namespace NexOS.Nxfs

open List

namespace Super

/-- The longest free run of at most `chunk` blocks, and the first of that length. -/
def largestRun (super : Super) (bits : Nat → Bool) : Nat → Option Extent
  | 0 => none
  | chunk + 1 =>
    match (List.range super.totalBlocks).find? fun start =>
        decide (super.FreeRun bits start (chunk + 1)) with
    | some start => some ⟨start, chunk + 1⟩
    | none => largestRun super bits chunk

/-- The runs that a request for `count` blocks is served from: the longest free
run, then the longest one of the rest, and so on. -/
def pieces (super : Super) : Nat → (Nat → Bool) → Nat → List Extent
  | 0, _, _ => []
  | fuel + 1, bits, count =>
    match super.largestRun bits count with
    | none => []
    | some extent =>
      extent :: pieces super fuel (setRun bits extent.start extent.len true) (count - extent.len)

/-- The length of the longest free run at `start`, up to `chunk`. -/
def runLength (super : Super) (bits : Nat → Bool) (start : Nat) : Nat → Nat
  | 0 => 0
  | chunk + 1 =>
    if super.FreeRun bits start (chunk + 1) then chunk + 1 else runLength super bits start chunk

/-- The run behind the last extent that a growth by `count` blocks takes. -/
def extension (super : Super) (bits : Nat → Bool) (inode : Inode) (count : Nat) : Extent :=
  match inode.lastExtent with
  | none => ⟨0, 0⟩
  | some last =>
    ⟨inode.extentEnd last, super.runLength bits (inode.extentEnd last) count⟩

/-- Growing the inode to `needBlocks` blocks fails after it has taken some: the
run behind its last extent is too short, the further runs do not suffice or are
more than it has extents for, and not all of this is found out at once. -/
def Strands (super : Super) (bits : Nat → Bool) (inode : Inode) (needBlocks : Nat) : Prop :=
  let missing := needBlocks - inode.blocks.length
  let behind := super.extension bits inode missing
  let rest := missing - behind.len
  let runs := super.pieces rest (setRun bits behind.start behind.len true) rest
  rest ≠ 0 ∧ ((runs.map Extent.len).sum ≠ rest ∨ inode.slots < runs.length) ∧
    (behind.len ≠ 0 ∨ (runs ≠ [] ∧ inode.slots ≠ 0))

instance (super : Super) (bits : Nat → Bool) (inode : Inode) (needBlocks : Nat) :
    Decidable (super.Strands bits inode needBlocks) :=
  inferInstanceAs (Decidable (_ ∧ _ ∧ _))

/-! ## Free runs depend on the bits of the volume only -/

/-- The bitmaps agree on the volume. -/
def SameBits (super : Super) (bits bits' : Nat → Bool) : Prop :=
  ∀ block < super.totalBlocks, bits block = bits' block

variable {super : Super} {bits bits' : Nat → Bool} (hsame : super.SameBits bits bits')

include hsame

lemma SameBits.free (block : Nat) : super.Free bits block ↔ super.Free bits' block := by
  constructor
  · rintro ⟨hdata, hclear⟩
    exact ⟨hdata, hsame block hdata.2 ▸ hclear⟩
  · rintro ⟨hdata, hclear⟩
    exact ⟨hdata, (hsame block hdata.2).symm ▸ hclear⟩

lemma SameBits.freeRun (start len : Nat) :
    super.FreeRun bits start len ↔ super.FreeRun bits' start len := by
  unfold FreeRun
  simp only [hsame.free]

lemma SameBits.setRun (start len : Nat) (used : Bool) :
    super.SameBits (Super.setRun bits start len used) (Super.setRun bits' start len used) := by
  intro block hblock
  unfold Super.setRun
  rw [hsame block hblock]

lemma SameBits.largestRun (chunk : Nat) :
    super.largestRun bits chunk = super.largestRun bits' chunk := by
  induction chunk with
  | zero => rfl
  | succ chunk ih =>
    unfold Super.largestRun
    simp only [hsame.freeRun, ih]

lemma SameBits.pieces (fuel count : Nat) :
    super.pieces fuel bits count = super.pieces fuel bits' count := by
  induction fuel generalizing bits bits' count with
  | zero => rfl
  | succ fuel ih =>
    unfold Super.pieces
    rw [hsame.largestRun]
    cases super.largestRun bits' count with
    | none => rfl
    | some extent => exact congrArg _ (ih (hsame.setRun _ _ _) _)

lemma SameBits.extension (inode : Inode) (count : Nat) :
    super.extension bits inode count = super.extension bits' inode count := by
  have hlen : ∀ start chunk,
      super.runLength bits start chunk = super.runLength bits' start chunk := by
    intro start chunk
    induction chunk with
    | zero => rfl
    | succ chunk ih =>
      unfold Super.runLength
      simp only [hsame.freeRun, ih]
  unfold Super.extension
  simp only [hlen]

lemma SameBits.strands (inode : Inode) (need : Nat) :
    super.Strands bits inode need ↔ super.Strands bits' inode need := by
  unfold Strands
  simp only [hsame.extension, (hsame.setRun _ _ _).pieces]

end Super

namespace Layout

variable {L : Layout} {bits : Nat → Bool} {chunk : Nat}
  {len need start fuel last : Nat} {extent : Extent} {taken : List Nat}
  {r : Option Inode}

/-! ## The longest free run -/

lemma find?_freeRun_eq_none (hlen : len ≠ 0) :
    (List.range L.totalBlocks).find? (fun start => decide (L.FreeRun bits start len)) =
        none ↔ ∀ start, ¬L.FreeRun bits start len := by
  rw [find?_eq_none]
  constructor
  · intro hnone start hrun
    have hlt := (hrun 0 (Nat.pos_of_ne_zero hlen)).1.2
    exact hnone start (mem_range.mpr hlt) (decide_eq_true hrun)
  · intro hnone start _ hrun
    exact hnone start (of_decide_eq_true hrun)

lemma find?_freeRun_of_firstRun (hlen : len ≠ 0) (hfirst : L.FirstRun bits len start) :
    (List.range L.totalBlocks).find? (fun start => decide (L.FreeRun bits start len)) =
      some start := by
  have hlt := (hfirst.free 0 (Nat.pos_of_ne_zero hlen)).1.2
  rw [find?_range_eq_some]
  refine ⟨decide_eq_true hfirst.free, mem_range.mpr hlt, fun other hother => ?_⟩
  simpa using hfirst.first other hother

lemma Largest.largestRun_eq (hmax : L.Largest bits chunk extent) :
    L.largestRun bits chunk = some extent := by
  induction chunk with
  | zero => exact absurd (Nat.le_zero.mp hmax.le) hmax.pos
  | succ chunk ih =>
    unfold Super.largestRun
    rcases Nat.lt_or_eq_of_le hmax.le with hlt | heq
    · have hnone := hmax.longest (chunk + 1) hlt le_rfl
      rw [(find?_freeRun_eq_none (Nat.succ_ne_zero chunk)).mpr hnone]
      exact ih ⟨hmax.pos, Nat.le_of_lt_succ hlt, hmax.first,
        fun longer hgt hle => hmax.longest longer hgt (Nat.le_succ_of_le hle)⟩
    · have hfirst := hmax.first
      rw [heq] at hfirst
      rw [find?_freeRun_of_firstRun (Nat.succ_ne_zero chunk) hfirst, ← heq]

variable (hnone : ∀ len, len ≠ 0 → len ≤ chunk → ∀ start, ¬L.FreeRun bits start len)

include hnone in
lemma largestRun_eq_none : L.largestRun bits chunk = none := by
  induction chunk with
  | zero => rfl
  | succ chunk ih =>
    unfold Super.largestRun
    rw [(find?_freeRun_eq_none (Nat.succ_ne_zero chunk)).mpr
      (hnone (chunk + 1) (Nat.succ_ne_zero chunk) le_rfl)]
    exact ih fun len hlen hle => hnone len hlen (Nat.le_succ_of_le hle)

lemma runLength_of_longest (hle : len ≤ chunk) (hrun : L.FreeRun bits start len)
    (hlong : ∀ longer, len < longer → longer ≤ chunk → ¬L.FreeRun bits start longer) :
    L.runLength bits start chunk = len := by
  induction chunk with
  | zero => exact (Nat.le_zero.mp hle).symm
  | succ chunk ih =>
    unfold Super.runLength
    rcases Nat.lt_or_eq_of_le hle with hlt | heq
    · rw [if_neg (hlong (chunk + 1) hlt le_rfl)]
      exact ih (Nat.le_of_lt_succ hlt)
        fun longer hgt hle => hlong longer hgt (Nat.le_succ_of_le hle)
    · rw [← heq, if_pos hrun]

lemma len_ne_zero_of_largestRun (hrun : L.largestRun bits chunk = some extent) :
    extent.len ≠ 0 := by
  induction chunk with
  | zero => cases hrun
  | succ chunk ih =>
    unfold Super.largestRun at hrun
    split at hrun
    · cases hrun
      exact Nat.succ_ne_zero chunk
    · exact ih hrun

/-- Each piece serves at least one block, so more fuel changes nothing. -/
lemma pieces_fuel {fuel' count : Nat} (bits : Nat → Bool) (hfuel : count ≤ fuel)
    (hfuel' : count ≤ fuel') : L.pieces fuel bits count = L.pieces fuel' bits count := by
  have hzero : ∀ fuel bits, L.pieces fuel bits 0 = [] := by
    intro fuel bits
    cases fuel with
    | zero => rfl
    | succ fuel => rfl
  induction fuel generalizing fuel' bits count with
  | zero => rw [Nat.le_zero.mp hfuel, hzero, hzero]
  | succ fuel ih =>
    cases fuel' with
    | zero => rw [Nat.le_zero.mp hfuel', hzero, hzero]
    | succ fuel' =>
      unfold Super.pieces
      cases hrun : L.largestRun bits count with
      | none => rfl
      | some extent =>
        have hlen := len_ne_zero_of_largestRun hrun
        exact congrArg _ (ih _ (by omega) (by omega))

lemma Largest.pieces_eq (hmax : L.Largest bits chunk extent) :
    L.pieces chunk bits chunk =
      extent :: L.pieces (chunk - extent.len)
        (Super.setRun bits extent.start extent.len true) (chunk - extent.len) := by
  have hpos := hmax.pos
  have hle := hmax.le
  obtain ⟨fuel, rfl⟩ : ∃ fuel, chunk = fuel + 1 := ⟨chunk - 1, by omega⟩
  rw [Super.pieces, hmax.largestRun_eq]
  exact congrArg _ (pieces_fuel _ (by omega) le_rfl)

include hnone in
lemma pieces_eq_nil : L.pieces chunk bits chunk = [] := by
  cases chunk with
  | zero => rfl
  | succ chunk => rw [Super.pieces, largestRun_eq_none hnone]

/-! ## Rounds without extension -/

variable {d d' d'' : Disk} {inode : Inode}

/-- The block behind the last extent is not free. -/
def Closed (layout : Layout) (d : Disk) (inode : Inode) : Prop :=
  ∀ last, inode.lastExtent = some last → ¬layout.Free (layout.bitAt d) (inode.extentEnd last)

lemma Takes.free_of_after (htakes : L.Takes d d' taken) {block : Nat}
    (hfree : L.Free (L.bitAt d') block) : L.Free (L.bitAt d) block := by
  refine ⟨hfree.1, ?_⟩
  have hclear := hfree.2
  rw [htakes.bits block hfree.1.2, Bool.or_eq_false_iff] at hclear
  exact hclear.1

/-- The bits stay exactly when nothing is taken. -/
lemma Takes.sameBits_iff (htakes : L.Takes d d' taken) :
    L.SameBits (L.bitAt d) (L.bitAt d') ↔ taken = [] := by
  constructor
  · intro hsame
    rw [eq_nil_iff_forall_not_mem]
    intro block hblock
    obtain ⟨hdata, hclear⟩ := htakes.free block hblock
    have hbit := hsame block hdata.2
    rw [htakes.bits block hdata.2, hclear, decide_eq_true hblock] at hbit
    cases hbit
  · rintro rfl block hblock
    rw [htakes.bits block hblock]
    simp

/-- In a closed inode an extent can only fill a slot. -/
lemma Closed.appendExtent (hclose : L.Closed d inode) (hmax : L.Largest (L.bitAt d) chunk extent) :
    inode.appendExtent extent.start extent.len =
      inode.freeSlot.map fun slot => inode.setExtent slot extent := by
  have hfree : L.Free (L.bitAt d) extent.start :=
    hmax.first.free 0 (Nat.pos_of_ne_zero hmax.pos)
  have hmerged : (inode.lastExtent.filter fun last => inode.extentEnd last = extent.start) =
      none := by
    rw [Option.filter_eq_none_iff]
    intro last hlast hend
    rw [decide_eq_true_eq] at hend
    exact hclose last hlast (hend.symm ▸ hfree)
  unfold Inode.appendExtent
  rw [if_neg hmax.pos]
  simp only [hmerged]
  cases inode.freeSlot with
  | none => rfl
  | some slot => rfl

/-- The inode stays closed when the longest free run fills a slot. -/
lemma Closed.setExtent (hclose : L.Closed d inode) {slot : Nat}
    (hslot : inode.freeSlot = some slot) (hmax : L.Largest (L.bitAt d) chunk extent)
    (hshort : extent.len < chunk) (htakes : L.Takes d d' taken) :
    L.Closed d' (inode.setExtent slot extent) := by
  obtain ⟨hlt, -⟩ := inode.freeSlot_eq_some hslot
  have hget := inode.getD_setExtent hlt extent
  intro last hlast hfree
  obtain ⟨hlast_lt, hlen, hlater⟩ := Inode.lastExtent_eq_some _ hlast
  have hfree' := htakes.free_of_after hfree
  unfold Inode.extentEnd at hfree'
  by_cases heq : last = slot
  · -- The run would have been longer.
    rw [hget, if_pos heq] at hfree'
    have hend := (hmax.first.free (extent.len - 1) (by have := hmax.pos; omega)).1.2
    have htotal := L.total_small
    rw [Nat.mod_eq_of_lt (by omega)] at hfree'
    refine hmax.longest (extent.len + 1) (Nat.lt_succ_self _) hshort extent.start ?_
    intro i hi
    rcases Nat.lt_or_eq_of_le (Nat.le_of_lt_succ hi) with hlt | rfl
    · exact hmax.first.free i hlt
    · exact hfree'
  · rw [hget, if_neg heq] at hfree' hlen
    refine hclose last (inode.lastExtent_of_later hlast_lt hlen fun j hgt hj => ?_) hfree'
    have hzero := hlater j hgt hj
    rw [hget] at hzero
    by_cases hj' : j = slot
    · rw [if_pos hj'] at hzero
      exact absurd hzero hmax.pos
    · rwa [if_neg hj'] at hzero

/-- What the rounds of a growth to `needBlocks` blocks come to, from a closed
inode: the pieces serve the request and fit, or what was taken stays marked. -/
structure Rounds (layout : Layout) (d : Disk) (inode : Inode) (needBlocks : Nat)
    (r : Option Inode) (d' : Disk) : Prop where
  served : r ≠ none ↔ ((layout.pieces (needBlocks - inode.blocks.length) (layout.bitAt d)
        (needBlocks - inode.blocks.length)).map Extent.len).sum =
      needBlocks - inode.blocks.length ∧
    (layout.pieces (needBlocks - inode.blocks.length) (layout.bitAt d)
        (needBlocks - inode.blocks.length)).length ≤ inode.slots
  kept : r = none → (layout.SameBits (layout.bitAt d) (layout.bitAt d') ↔
    layout.pieces (needBlocks - inode.blocks.length) (layout.bitAt d)
        (needBlocks - inode.blocks.length) = [] ∨ inode.slots = 0)

lemma rounds_refl (L : Layout) (d : Disk) (hneed : need ≤ inode.blocks.length) :
    L.Rounds d inode need (some inode) d := by
  have hzero : need - inode.blocks.length = 0 := by omega
  refine ⟨?_, nofun⟩
  rw [hzero]
  simp [Super.pieces]

/-- A closed inode is not extended. -/
lemma Closed.extends_eq (hclose : L.Closed d inode) {blocks : Nat}
    {r : Option (Option (Inode × Nat))} (hsmall : L.IntSized)
    (hends : L.Extends d inode blocks chunk r d') : r = some none ∧ d' = d := by
  cases hends with
  | refused hnone => exact ⟨rfl, rfl⟩
  | grown hlast hlen hle hrun hlong htakes hzero =>
    exact absurd (hrun 0 (Nat.pos_of_ne_zero hlen)) (hclose _ hlast)
  | stuck hbig htakes => exact absurd hsmall hbig

/-- The bits after a run was taken. -/
lemma Takes.sameBits_setRun (htakes : L.Takes d d' (Extent.blocks ⟨start, len⟩)) :
    L.SameBits (L.bitAt d') (Super.setRun (L.bitAt d) start len true) := by
  intro block hblock
  rw [htakes.bits block hblock, Super.setRun]
  split
  next hin => simp [hin]
  next hout => simp [hout]

/-! ## The whole growth -/

/-- How `nxfs_ensure_blocks` ends: the inode gains zeroed blocks, or only loses
some. Up to `2 ^ 31` blocks, blocks are lost exactly when the call strands them. -/
inductive Ensures (layout : Layout) (d : Disk) (inode : Inode) (needBlocks : Nat) :
    Option Inode → Disk → Prop where
  | done {gained lost : List Nat} {inode' : Inode} {d' : Disk} (hheader : inode.SameHeader inode')
      (hblocks : inode'.blocks.Perm (inode.blocks ++ gained))
      (hlength : inode'.blocks.length = max inode.blocks.length needBlocks)
      (htakes : layout.Takes d d' (gained ++ lost)) (hzeroed : Zeroed d' gained)
      (hexact : layout.IntSized → lost = [] ∧ ¬layout.Strands (layout.bitAt d) inode needBlocks) :
      Ensures layout d inode needBlocks (some inode') d'
  | failed {lost : List Nat} {d' : Disk} (htakes : layout.Takes d d' lost)
      (hexact : layout.IntSized → (lost ≠ [] ↔ layout.Strands (layout.bitAt d) inode needBlocks)) :
      Ensures layout d inode needBlocks none d'

/-- The growth strands blocks if and only if it fails and the bits differ. -/
def Exact (layout : Layout) (d : Disk) (inode : Inode) (needBlocks : Nat) (r : Option Inode)
    (d' : Disk) : Prop :=
  layout.Strands (layout.bitAt d) inode needBlocks ↔
    r = none ∧ ¬layout.SameBits (layout.bitAt d) (layout.bitAt d')

lemma Grows.ensures (hgrows : L.Grows d inode need r d')
    (hexact : L.IntSized → L.Exact d inode need r d') :
    L.Ensures d inode need r d' := by
  cases hgrows with
  | done hhdr hblocks hlen htakes hzero hlost =>
    refine .done hhdr hblocks hlen htakes hzero fun hsmall => ⟨hlost hsmall, ?_⟩
    intro hstrand
    cases ((hexact hsmall).mp hstrand).1
  | failed htakes =>
    refine .failed htakes fun hsmall => ?_
    have hiff := hexact hsmall
    unfold Exact at hiff
    rw [hiff, htakes.sameBits_iff]
    simp

/-- Nothing is missing, so nothing is stranded. -/
lemma not_strands_of_le (hneed : need ≤ inode.blocks.length) : ¬L.Strands bits inode need := by
  rintro ⟨hrest, -⟩
  exact hrest (by omega)

lemma setRun_zero (bits : Nat → Bool) (start : Nat) : Super.setRun bits start 0 true = bits := by
  funext block
  rw [Super.setRun, if_neg (by omega)]

/-- From a closed inode, the rounds decide. -/
lemma Rounds.exact (hrounds : L.Rounds d inode need r d')
    (hmore : inode.blocks.length < need) (hclose : L.Closed d inode) :
    L.Exact d inode need r d' := by
  have hbehind : (L.extension (L.bitAt d) inode (need - inode.blocks.length)).len = 0 := by
    unfold Super.extension
    rcases hlast : inode.lastExtent with _ | last
    · rfl
    refine runLength_of_longest (Nat.zero_le _) (fun i hi => absurd hi (Nat.not_lt_zero i)) ?_
    intro longer hgt _ hrun
    exact hclose last hlast (hrun 0 hgt)
  unfold Exact Super.Strands
  simp only [hbehind, setRun_zero, Nat.sub_zero]
  constructor
  · rintro ⟨-, hnot, hsome⟩
    have hnone : r = none := by
      by_contra hr
      obtain ⟨hsum, hlen⟩ := hrounds.served.mp hr
      rcases hnot with hnot | hnot
      · exact hnot hsum
      · omega
    refine ⟨hnone, ?_⟩
    rw [hrounds.kept hnone]
    rintro (hnil | hzero)
    · rcases hsome with hbad | hsome
      · exact hbad rfl
      · exact hsome.1 hnil
    · rcases hsome with hbad | hsome
      · exact hbad rfl
      · exact hsome.2 hzero
  · rintro ⟨hnone, hdiffer⟩
    rw [hrounds.kept hnone, not_or] at hdiffer
    refine ⟨by omega, ?_, .inr hdiffer⟩
    by_contra hserve
    rw [not_or, not_not, Nat.not_lt] at hserve
    exact hrounds.served.mpr hserve hnone

/-! ## The first round -/

/-- After it was extended as far as possible, an inode is closed and has as many
slots as before. -/
lemma closed_growExtent (hholds : L.Holds d inode) (hlast : inode.lastExtent = some last)
    (hlen : len ≠ 0) (hrun : L.FreeRun (L.bitAt d) (inode.extentEnd last) len)
    (htakes : L.Takes d d' taken) :
    (¬L.FreeRun (L.bitAt d) (inode.extentEnd last) (len + 1) →
      L.Closed d' (inode.growExtent last len)) ∧
      (inode.growExtent last len).slots = inode.slots := by
  obtain ⟨hlt, hused, hlater⟩ := inode.lastExtent_eq_some hlast
  obtain ⟨hend, -⟩ := hholds.bounded.extentEnd hlast
  have hroom := (hrun (len - 1) (by omega)).1.2
  have htotal := L.total_small
  have hwrap : ((inode.extents.getD last ⟨0, 0⟩).len + len) % wordLimit =
      (inode.extents.getD last ⟨0, 0⟩).len + len := Nat.mod_eq_of_lt (by omega)
  have hget := inode.getD_setExtent hlt
    ⟨(inode.extents.getD last ⟨0, 0⟩).start, (inode.extents.getD last ⟨0, 0⟩).len + len⟩
  have hgrow : inode.growExtent last len = inode.setExtent last
      ⟨(inode.extents.getD last ⟨0, 0⟩).start, (inode.extents.getD last ⟨0, 0⟩).len + len⟩ := by
    unfold Inode.growExtent
    dsimp only
    rw [hwrap]
  rw [hgrow]
  constructor
  · have hlast' := Inode.lastExtent_of_later (inode.setExtent last
        ⟨(inode.extents.getD last ⟨0, 0⟩).start, (inode.extents.getD last ⟨0, 0⟩).len + len⟩) hlt
      (by rw [hget, if_pos rfl]; simp only; omega)
      (fun j hgt hj => by rw [hget, if_neg (by omega)]; exact hlater j hgt hj)
    intro hlonger other hother hfree
    rw [hlast', Option.some.injEq] at hother
    subst hother
    have hfree' := htakes.free_of_after hfree
    unfold Inode.extentEnd at hfree'
    rw [hget, if_pos rfl] at hfree'
    simp only at hfree'
    rw [← Nat.add_assoc, ← hend, Nat.mod_eq_of_lt (by omega)] at hfree'
    refine hlonger fun i hi => ?_
    rcases Nat.lt_or_eq_of_le (Nat.le_of_lt_succ hi) with hlt | rfl
    · exact hrun i hlt
    · exact hfree'
  · have hslots := inode.slots_setExtent hlt (show (Extent.mk (inode.extents.getD last ⟨0, 0⟩).start
        ((inode.extents.getD last ⟨0, 0⟩).len + len)).len ≠ 0 by dsimp only; omega)
    rwa [if_neg hused] at hslots

lemma extension_of_longest {count : Nat} (hlast : inode.lastExtent = some last)
    (hle : len ≤ count) (hrun : L.FreeRun bits (inode.extentEnd last) len)
    (hlong : ∀ longer, len < longer → longer ≤ count →
      ¬L.FreeRun bits (inode.extentEnd last) longer) :
    L.extension bits inode count = ⟨inode.extentEnd last, len⟩ := by
  unfold Super.extension
  rw [hlast]
  dsimp only
  rw [runLength_of_longest hle hrun hlong]

/-- The rounds after an extension decide. -/
lemma Rounds.exact_of_extension {inode' : Inode}
    (hrounds : L.Rounds d' inode' need r d'') (hlast : inode.lastExtent = some last)
    (hlen : len ≠ 0) (hle : len ≤ need - inode.blocks.length)
    (hrun : L.FreeRun (L.bitAt d) (inode.extentEnd last) len)
    (hlong : ∀ longer, len < longer → longer ≤ need - inode.blocks.length →
      ¬L.FreeRun (L.bitAt d) (inode.extentEnd last) longer)
    (htakes : L.Takes d d' (Extent.blocks ⟨inode.extentEnd last, len⟩))
    (hlength : inode'.blocks.length = inode.blocks.length + len)
    (hslots : inode'.slots = inode.slots) (hgrows : L.Grows d' inode' need r d'') :
    L.Exact d inode need r d'' := by
  have hbehind := extension_of_longest hlast hle hrun hlong
  have hrest : need - inode.blocks.length - len = need - inode'.blocks.length := by
    omega
  unfold Exact Super.Strands
  simp only [hbehind, hrest, ← htakes.sameBits_setRun.pieces, ← hslots]
  constructor
  · rintro ⟨-, hnot, -⟩
    have hnone : r = none := by
      by_contra hr
      obtain ⟨hsum, hfit⟩ := hrounds.served.mp hr
      rcases hnot with hnot | hnot
      · exact hnot hsum
      · omega
    refine ⟨hnone, ?_⟩
    subst hnone
    cases hgrows with
    | @failed lost _ htakes' =>
      rw [(htakes.trans htakes').sameBits_iff]
      intro hnil
      have hzero := congrArg List.length hnil
      simp only [length_append, Extent.length_blocks, length_nil] at hzero
      omega
  · rintro ⟨hnone, -⟩
    have hnot := mt hrounds.served.mpr (fun h => h hnone)
    refine ⟨?_, ?_, .inl hlen⟩
    · intro hzero
      refine hnot ?_
      rw [hzero]
      simp [Super.pieces]
    · by_contra hserve
      rw [not_or, not_not, Nat.not_lt] at hserve
      exact hnot hserve

/-- From a closed inode, the growth ends as its rounds do. -/
def EndsRounds (layout : Layout) (needBlocks : Nat) (d : Disk) (inode : Inode) (r : Option Inode)
    (d' : Disk) : Prop :=
  layout.Grows d inode needBlocks r d' ∧ (layout.IntSized →
    (inode.blocks.length < needBlocks → layout.Closed d inode) →
    layout.Rounds d inode needBlocks r d')

/-- From any inode, the first round decides whether it strands blocks. -/
def EndsExact (layout : Layout) (needBlocks : Nat) (d : Disk) (inode : Inode) (r : Option Inode)
    (d' : Disk) : Prop :=
  layout.EndsRounds needBlocks d inode r d' ∧
    (layout.IntSized → layout.Exact d inode needBlocks r d')

lemma EndsRounds.failed (hmore : inode.blocks.length < need)
    (hends : L.Adds d inode (need - inode.blocks.length) none d') :
    L.EndsRounds need d inode none d' := by
  refine ⟨(keptByGrowth_grows L need).failed hmore hends, fun hsmall hclose => ?_⟩
  cases hends with
  | failed htakes hexact =>
    obtain ⟨rfl, hwhy⟩ := hexact hsmall
    have hsame := htakes.sameBits_iff.mpr rfl
    rcases hwhy with hnone | ⟨extent, hmax, happ⟩
    · refine ⟨?_, fun _ => iff_of_true hsame (.inl (pieces_eq_nil hnone))⟩
      rw [pieces_eq_nil hnone]
      simp
      omega
    · rw [(hclose hmore).appendExtent hmax, Option.map_eq_none_iff,
        inode.freeSlot_eq_none_iff] at happ
      refine ⟨?_, fun _ => iff_of_true hsame (.inr happ)⟩
      rw [hmax.pieces_eq, happ]
      simp

/-- A round takes the first piece. -/
lemma EndsRounds.added {inode' : Inode} {added : Nat}
    (hholds : L.Holds d inode) (hmore : inode.blocks.length < need)
    (hends : L.Adds d inode (need - inode.blocks.length) (some (inode', added)) d')
    (hrest : L.EndsRounds need d' inode' r d'') :
    L.EndsRounds need d inode r d'' := by
  refine ⟨(keptByGrowth_grows L need).added hholds hmore hends hrest.1, fun hsmall hclose => ?_⟩
  replace hclose := hclose hmore
  cases hends with
  | @done lost extent _ _ happ hhdr hblocks hpos hle htakes hzeroed hexact =>
    obtain ⟨rfl, hmax⟩ := hexact hsmall
    have hlen := hblocks.length_eq
    rw [length_append, Extent.length_blocks] at hlen
    rw [hclose.appendExtent hmax, Option.map_eq_some_iff] at happ
    obtain ⟨slot, hslot, hset⟩ := happ
    obtain ⟨hslot_lt, hslot_len⟩ := inode.freeSlot_eq_some hslot
    have hslots := inode.slots_setExtent hslot_lt hmax.pos
    rw [if_pos hslot_len, hset] at hslots
    have hrounds := hrest.2 hsmall fun hmore' => by
      rw [← hset]
      exact hclose.setExtent hslot hmax (by omega) htakes
    have hpieces := hmax.pieces_eq
    rw [append_nil] at htakes
    rw [← htakes.sameBits_setRun.pieces, show need - inode.blocks.length - extent.len =
      need - inode'.blocks.length by omega] at hpieces
    refine ⟨?_, fun hnone => ?_⟩
    · rw [hrounds.served, hpieces, map_cons, sum_cons, length_cons]
      omega
    subst hnone
    cases hrest.1 with
    | @failed lost _ htakes' =>
      rw [(htakes.trans htakes').sameBits_iff, hpieces]
      refine iff_of_false ?_ ?_
      · intro hnil
        have hzero := congrArg List.length hnil
        simp only [length_append, Extent.length_blocks, length_nil] at hzero
        omega
      · rintro (hnil | hzero)
        · cases hnil
        · omega

lemma keptByGrowth_exact (L : Layout) (need : Nat) :
    KeptByGrowth L need (L.EndsExact need) (L.EndsRounds need) where
  full {d _} hneed :=
    have hends := ⟨grows_refl L d hneed, fun _ _ => rounds_refl L d hneed⟩
    ⟨⟨hends, fun _ => iff_of_false (not_strands_of_le hneed) nofun⟩, hends⟩
  refused {d _ inode _} hmore hends hrest := by
    cases hends with
    | refused hnone =>
      have hclose : L.Closed d inode := by
        intro last hlast hfree
        refine hnone last 1 hlast Nat.one_ne_zero (by omega) fun i hi => ?_
        obtain rfl : i = 0 := by omega
        exact hfree
      exact ⟨hrest, fun hsmall => (hrest.2 hsmall fun _ => hclose).exact hmore hclose⟩
  stuck hbig htakes := ⟨⟨.failed htakes, fun hsmall => absurd hsmall hbig⟩, fun hsmall =>
    absurd hsmall hbig⟩
  extended hholds hmore hends hrest := by
    refine ⟨⟨(keptByGrowth_grows L need).extended hholds hmore hends hrest.1,
      fun hsmall hclose => ?_⟩, fun hsmall => ?_⟩
    · exact absurd ((hclose hmore).extends_eq hsmall hends).1 nofun
    obtain ⟨gained, -, hgrown, hn, -⟩ := hends.grown_holds hholds
    have hlength := congrArg List.length hgrown
    rw [length_append, ← hn] at hlength
    cases hends with
    | @grown last len _ hlast hlen hle hrun hlong htakes hzero =>
      obtain ⟨hclose, hslots⟩ := closed_growExtent hholds hlast hlen hrun htakes
      refine (hrest.2 hsmall fun hmore' => hclose ?_).exact_of_extension hlast hlen hle hrun
        hlong htakes hlength hslots hrest.1
      exact hlong (len + 1) (Nat.lt_succ_self len) (by omega)
  added hholds hmore hends hrest := hrest.1.added hholds hmore hends
  failed hmore hends := .failed hmore hends

/-- Growing an inode that holds its blocks. -/
lemma ends_ensureBlocks (hholds : L.Holds d inode) (need : Nat) :
    (ensureBlocks L.toSuper inode need).Ends Disk.serve d (L.Ensures d inode need) := by
  have hfuel := Nat.le_add_left need inode.blocks.length
  unfold ensureBlocks
  rw [hholds.bounded.blockCount]
  exact ((keptByGrowth_exact L need).ends hholds hfuel).mono fun r d' hends =>
    hends.1.1.ensures hends.2

/-- The first block of an inode is the first free one. -/
lemma ends_ensureBlocks_one (hsmall : L.IntSized) (hnil : inode.blocks = [])
    (hlast : inode.lastExtent = none) (hslots : inode.slots ≠ 0) (d : Disk) :
    (ensureBlocks L.toSuper inode 1).Ends Disk.serve d fun r d' =>
      (r = none → L.Takes d d' [] ∧ ∀ start, ¬L.FreeRun (L.bitAt d) start 1) ∧
      ∀ inode', r = some inode' → ∃ start, L.FirstRun (L.bitAt d) 1 start ∧
        inode'.blocks = [start] ∧ L.Takes d d' [start] ∧ Zeroed d' [start] := by
  have hholds := holds_of_nil L d hnil
  have hclose : L.Closed d inode := by
    intro last hsome
    rw [hlast] at hsome
    cases hsome
  have hcount : inode.blockCount = 0 := by
    rw [hholds.bounded.blockCount, hnil, length_nil]
  unfold ensureBlocks
  rw [hcount]
  have hextend := (ends_extendLargest hholds 1).mono fun r d' h => hclose.extends_eq hsmall h
  rw [hnil] at hextend
  refine Program.Ends.bind hextend ?_ ?_
  · rintro d' ⟨hbad, -⟩
    cases hbad
  rintro value d' ⟨hvalue, rfl⟩
  cases hvalue
  refine Program.Ends.bind (ends_addExtent hholds _) ?_ ?_
  · intro d'' hends
    cases hends with
    | failed htakes hexact =>
      obtain ⟨rfl, hnone | ⟨extent, hmax, happ⟩⟩ := hexact hsmall
      · exact ⟨fun _ => ⟨htakes, hnone 1 Nat.one_ne_zero (Nat.le_refl 1)⟩, nofun⟩
      · rw [hclose.appendExtent hmax, Option.map_eq_none_iff, inode.freeSlot_eq_none_iff] at happ
        exact absurd happ hslots
  · intro value d'' hends
    cases hends with
    | @done lost extent inode' _ happ hhdr hblocks hpos hle htakes hzero hexact =>
      obtain ⟨rfl, hmax⟩ := hexact hsmall
      obtain ⟨start, len⟩ := extent
      obtain rfl : len = 1 := by
        dsimp only at hpos hle
        omega
      rw [hnil] at hblocks
      refine ⟨nofun, fun inode'' hsome => ?_⟩
      cases hsome
      exact ⟨start, hmax.first, perm_singleton.mp hblocks, htakes, hzero⟩

end Layout

end NexOS.Nxfs
