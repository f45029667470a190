import NexOS.Fat32.Deletion
import NexOS.Fat32.LongNames

/-! # Tidy directories

Every name is answered to by one entry at most. A new entry has a name that no entry
answered to and an alias that no entry had, and an alias that reads like the long name
of an older entry would be that entry's own alias. This is kept when an entry is added
to a free row, when the directory grows and when an entry is removed.
-/

namespace NexOS.Fat32

open List

/-! ## Names that do not clash -/

/-- No name is answered to by both entries. -/
def Apart (first second : Entry) : Prop :=
  ∀ name, ¬ (first.matches name = true ∧ second.matches name = true)

/-- The short name is that of an alias or of a dot entry, and a name that has a short
name has it as its alias. -/
structure WellNamed (entry : Entry) : Prop where
  raw_short : (∃ base ext, ShortParts entry.raw base ext) ∨
    isDotName (formatName83 entry.raw) = true ∧ entry.file.name = formatName83 entry.raw
  own_alias : nameFitsShortExact entry.file.name = true → entry.file.name.getLast? ≠ some dot →
    normalizeName83 entry.file.name = entry.raw

/-- No name is that of two entries. -/
structure Unambiguous (entries : List Entry) : Prop where
  named : ∀ entry ∈ entries, WellNamed entry
  apart : entries.Pairwise Apart

lemma Apart.symm {first second : Entry} (hapart : Apart first second) : Apart second first :=
  fun name hboth => hapart name hboth.symm

variable {name : Name} {state : LfnState} {raw base ext : List UInt8} {front back : List Slot}

lemma not_fits_of_isDotName (hdot : isDotName name = true) : nameFitsShortExact name = false := by
  rw [isDotName, decide_eq_true_eq] at hdot
  rcases hdot with rfl | rfl <;> decide

/-- An entry that reads like a short name has it. -/
lemma WellNamed.raw_eq {entry : Entry} (hentry : WellNamed entry)
    (hraw : ShortParts raw base ext) (hmatch : entry.matches (formatName83 raw) = true) :
    entry.raw = raw := by
  rw [Entry.matches, Bool.or_eq_true] at hmatch
  rcases hmatch with hname | halias
  · obtain ⟨hfits, hnormal⟩ := normalize_of_sameName_format hraw hname
    rw [← hnormal] at hname
    rw [← hentry.own_alias hfits ((sameName_format_normalize hfits).mp hname), hnormal]
  · rcases hentry.raw_short with ⟨base', ext', hparts⟩ | ⟨hdot, -⟩
    · exact raw_eq_of_sameName hparts hraw halias
    · have hfits := (normalize_of_sameName_format hraw halias).1
      rw [not_fits_of_isDotName hdot] at hfits
      exact absurd hfits Bool.false_ne_true

lemma matches_of_sameName {entry : Entry} {first second : Name}
    (hmatch : entry.matches first = true) (hsame : sameName first second = true) :
    entry.matches second = true := by
  rw [Entry.matches, Bool.or_eq_true] at hmatch ⊢
  exact hmatch.imp (sameName_trans · hsame) (sameName_trans · hsame)

/-- A new entry answers to its name, or to nothing but its alias, which no other entry
has. -/
lemma apart_of_new {old new : Entry} (hold : WellNamed old) (hraw : ShortParts new.raw base ext)
    (hname : new.file.name = name ∨ new.file.name = formatName83 new.raw)
    (hunm : old.matches name = false) (hfresh : old.raw ≠ new.raw) : Apart old new := by
  rintro other ⟨hmatchesOld, hnew⟩
  rw [Entry.matches, Bool.or_eq_true] at hnew
  have halias : ¬ sameName (formatName83 new.raw) other = true := fun hsame =>
    hfresh (hold.raw_eq hraw (matches_of_sameName hmatchesOld (by rwa [sameName_comm])))
  rcases hnew with hsame | hsame
  · rcases hname with hname | hname
    · rw [hname, sameName_comm] at hsame
      exact absurd (matches_of_sameName hmatchesOld hsame) (by simp [hunm])
    · exact halias (hname ▸ hsame)
  · exact halias hsame

/-! ## Aliases of new entries -/

lemma uniqueShortNameFrom_spec {slots : List Slot} {serial tries : Nat}
    (huniq : uniqueShortNameFrom slots name serial tries = some raw) :
    ∃ used, raw = makeShortAlias name used ∧ shortNameExists slots raw = false ∧
      (shortNameExists slots (makeShortAlias name serial) = false → used = serial) := by
  induction tries generalizing serial with
  | zero => simp [uniqueShortNameFrom] at huniq
  | succ tries ih =>
    rw [uniqueShortNameFrom] at huniq
    cases hexists : shortNameExists slots (makeShortAlias name serial) with
    | true =>
      rw [if_pos hexists] at huniq
      obtain ⟨used, hraw, hfresh, -⟩ := ih huniq
      exact ⟨used, hraw, hfresh, by simp⟩
    | false =>
      rw [if_neg (by simp [hexists]), Option.some.injEq] at huniq
      exact ⟨serial, huniq.symm, huniq ▸ hexists, fun _ => rfl⟩

/-- What a plan for a new entry says about its names. -/
structure Planned (slots : List Slot) (name : Name) (raw : List UInt8) (lfnCount : Nat) : Prop where
  unmatched : ∀ entry ∈ entries slots, entry.matches name = false
  raw_short : ∃ base ext, ShortParts raw base ext
  fresh : ∀ entry ∈ entries slots, entry.raw ≠ raw
  exact : nameFitsShortExact name = true → name.getLast? ≠ some dot → raw = normalizeName83 name
  count_eq : lfnCount = if nameNeedsLfn name then lfnEntryCountForName name else 0
  count_le : lfnCount ≤ 20

lemma planned_of_planEntry {slots : List Slot} {lfns : Nat}
    (hplan : planEntry slots name = some (raw, lfns)) : Planned slots name raw lfns := by
  unfold planEntry at hplan
  cases hfind : findInDirectory slots name with
  | some file => simp [hfind] at hplan
  | none =>
    rcases huniq : buildUniqueShortName slots name with _ | found
    · simp [huniq] at hplan
    simp only [hfind, huniq, Option.isSome_none, Bool.false_eq_true, if_false,
      Option.ite_none_left_eq_some, not_lt] at hplan
    obtain ⟨hle, rfl, rfl⟩ := hplan
    obtain ⟨used, hraw, hfresh, hfirst⟩ := uniqueShortNameFrom_spec huniq
    have hunm : ∀ entry ∈ entries slots, entry.matches name = false := by
      rw [findInDirectory_eq] at hfind
      simpa using hfind
    have hfresh' : ∀ raw, shortNameExists slots raw = false →
        ∀ entry ∈ entries slots, entry.raw ≠ raw := fun raw hraw entry hentry heq => by
      rw [shortNameExists_iff.mpr ⟨entry, hentry, heq⟩] at hraw
      exact Bool.noConfusion hraw
    refine ⟨hunm, hraw ▸ exists_shortParts_alias name used, hfresh' _ hfresh, ?_, rfl, hle⟩
    intro hfits hlast
    -- the name itself is not taken as an alias: its owner would have been found
    have hnormal : makeShortAlias name 0 = normalizeName83 name := by
      simp [makeShortAlias, hfits]
    have hfree : shortNameExists slots (makeShortAlias name 0) = false := by
      by_contra htaken
      rw [Bool.not_eq_false, hnormal] at htaken
      obtain ⟨entry, hentry, heq⟩ := shortNameExists_iff.mp htaken
      have hmatch : entry.matches name = true := by
        rw [Entry.matches, heq, Bool.or_eq_true, sameName_comm (formatName83 _)]
        exact .inr ((sameName_format_normalize hfits).mpr hlast)
      rw [hunm entry hentry] at hmatch
      exact Bool.noConfusion hmatch
    rw [hraw, hfirst hfree, hnormal]

/-! ## The slots of a directory -/

/-- A long name that is complete is followed by the entry it belongs to. -/
def Followed (state : LfnState) : List Slot → Prop
  | [] => True
  | slot :: rest =>
    (state.Ready → slot.isEntry = true ∧ state.checksum = shortNameChecksum slot.rawName) ∧
      Followed (stepState state slot) rest

lemma followed_append :
    Followed state (front ++ back) ↔ Followed state front ∧
      Followed (stateAfter state front) back := by
  induction front generalizing state with
  | nil => simp [Followed]
  | cons slot front ih => simp [Followed, ih, and_assoc]

/-- After the end mark there is nothing, a complete long name is followed by the entry
it belongs to, and no name is answered to by two entries. -/
structure Tidy (slots : List Slot) : Prop where
  ended : Ended slots
  followed : Followed {} slots
  notReady : ¬ (stateAfter {} slots).Ready
  names : Unambiguous (entries slots)

lemma Ended.of_append (hended : Ended (front ++ back)) : Ended back :=
  fun before slot later heq => hended (front ++ before) slot later (by rw [heq, append_assoc])

lemma Ended.append (hfront : ∀ slot ∈ front, slot.isEnd = false) (hback : Ended back) :
    Ended (front ++ back) := by
  induction front with
  | nil => exact hback
  | cons first front ih =>
    rw [forall_mem_cons] at hfront
    intro before slot later heq hend
    cases before with
    | nil =>
      rw [nil_append, cons_append, List.cons.injEq] at heq
      rw [← heq.1, hfront.1] at hend
      exact absurd hend Bool.false_ne_true
    | cons head before => exact ih hfront.2 before slot later (List.cons.inj heq).2 hend

lemma not_ready_default : ¬ ({} : LfnState).Ready := fun hready => Bool.noConfusion hready.1

/-- Free slots come after no complete long name. -/
lemma followed_free {free : List Slot} (hfree : ∀ slot ∈ free, slot.isFree = true)
    (hstate : ¬ state.Ready) : Followed state free := by
  induction free generalizing state with
  | nil => trivial
  | cons slot free ih =>
    rw [forall_mem_cons] at hfree
    refine ⟨fun hready => absurd hready hstate, ?_⟩
    rw [stepState_of_isFree hfree.1]
    exact ih hfree.2 not_ready_default

lemma shortChar_ne_deleted {ch : UInt8} (hch : ShortChar ch) : ch ≠ 0xe5 := by
  revert hch ch
  apply forall_byte
  decide +kernel

section NewEntry

variable {attr : UInt8} {cluster : Nat}

lemma rawName_shortDirent (hlen : raw.length = 11) :
    (shortDirent raw attr cluster).rawName = raw := by
  apply ext_getElem
  · simp [Slot.rawName, hlen]
  intro k hk hk'
  have hlt : k < 11 := by omega
  simp (disch := omega) only [Slot.rawName, getElem_map, getElem_range, shortDirent,
    setDirentCluster, if_neg, if_pos hlt]
  simp [hk']

lemma firstCluster_setDirentCluster (slot : Slot) (hlt : cluster < 2 ^ 32) :
    (setDirentCluster slot cluster).firstCluster = cluster := by
  have hbytes : (setDirentCluster slot cluster).firstCluster =
      ((UInt8.ofNat (cluster / 65536)).toNat + 256 * (UInt8.ofNat (cluster / 16777216)).toNat) *
          65536 +
        ((UInt8.ofNat cluster).toNat + 256 * (UInt8.ofNat (cluster / 256)).toNat) := rfl
  rw [hbytes]
  simp only [UInt8.toNat_ofNat']
  omega

lemma firstCluster_shortDirent (hlt : cluster < 2 ^ 32) :
    (shortDirent raw attr cluster).firstCluster = cluster :=
  firstCluster_setDirentCluster _ hlt

lemma fileSize_shortDirent : (shortDirent raw attr cluster).fileSize = 0 := rfl

lemma attr_shortDirent : (shortDirent raw attr cluster).attr = attr := rfl

lemma isEntry_shortDirent_of_first {first : UInt8} (hfirst : raw.getD 0 0 = first)
    (hzero : first ≠ 0) (hdel : first ≠ 0xe5) (hattr : attr = 0 ∨ attr = attrDirectory) :
    (shortDirent raw attr cluster).isEntry = true := by
  have hbyte : shortDirent raw attr cluster 0 = first := hfirst
  rw [Slot.isEntry_iff]
  simp only [Slot.isEnd, Slot.isDeleted, hbyte, decide_eq_false_iff_not]
  have hbits : ∀ a : UInt8, a = 0 ∨ a = attrDirectory → ¬ a = 0x0f ∧ a &&& 0x08 = 0 := by
    rintro a (rfl | rfl) <;> decide
  obtain ⟨hlfn, hvol⟩ := hbits attr hattr
  exact ⟨hzero, hdel, decide_eq_false hlfn, decide_eq_false (not_not.mpr hvol)⟩

lemma isEntry_shortDirent (hparts : ShortParts raw base ext)
    (hattr : attr = 0 ∨ attr = attrDirectory) :
    (shortDirent raw attr cluster).isEntry = true := by
  obtain ⟨first, rest, rfl⟩ := exists_cons_of_ne_nil hparts.base_ne_nil
  have hshort := hparts.base_short first mem_cons_self
  apply isEntry_shortDirent_of_first _ hshort.ne_blank.2.2 (shortChar_ne_deleted hshort) hattr
  simp [hparts.raw_eq, pad]

end NewEntry

/-- The entry that is read from the slots of a new one. A name with twenty pieces is
not read back. -/
def readEntry (name : Name) (raw : List UInt8) (lfnCount : Nat) (attributes : UInt8)
    (cluster start : Nat) : Entry :=
  ⟨{ name := if 0 < lfnCount ∧ lfnCount ≤ 19 then name else formatName83 raw
     firstCluster := cluster
     size := 0
     attributes := attributes
     lfnEntryCount := if 0 < lfnCount ∧ lfnCount ≤ 19 then lfnCount else 0
     direntIndex := start + lfnCount }, raw⟩

section Create

variable {lfns : Nat} {attr : UInt8} {cluster : Nat}
  {slots front free back : List Slot}

lemma length_le_of_count (hneeds : lfns = lfnEntryCountForName name) : name.length ≤ 13 * lfns := by
  rw [hneeds, lfnEntryCountForName]
  split_ifs with hnil
  · simp [hnil]
  · omega

variable (hplanned : Planned slots name raw lfns)

include hplanned

lemma Planned.ne_nil (hpos : 0 < lfns) : name ≠ [] ∧ lfns = lfnEntryCountForName name := by
  have hcount := hplanned.count_eq
  by_cases hneeds : nameNeedsLfn name = true
  · rw [if_pos hneeds] at hcount
    refine ⟨fun hnil => ?_, hcount⟩
    rw [lfnEntryCountForName, if_pos hnil] at hcount
    omega
  · rw [if_neg hneeds] at hcount
    omega

/-- What is read of a long name before the entry it belongs to. -/
lemma stateAfter_pieces (hzero : ∀ ch ∈ name, ch ≠ 0) (checksum : UInt8) (hstate : ¬ state.Ready) :
    let after := stateAfter state (pieces name lfns checksum lfns)
    (0 < lfns ∧ lfns ≤ 19 ∧ after.Ready ∧ after.checksum = checksum ∧
      bufferText after.name = name ∧ after.totalEntries = lfns) ∨
    (¬ (0 < lfns ∧ lfns ≤ 19) ∧ ¬ after.Ready) := by
  have hle := hplanned.count_le
  rcases Nat.eq_zero_or_pos lfns with rfl | hpos
  · exact .inr ⟨by omega, hstate⟩
  obtain ⟨hne, hcount⟩ := hplanned.ne_nil hpos
  have hlen := length_le_of_count hcount
  by_cases hshort : lfns ≤ 19
  · have hreads : Reads name lfns checksum lfns _ := reads_pieces state hshort hpos le_rfl
    exact .inl ⟨hpos, hshort, hreads.ready hne hzero hlen, hreads.sum,
      hreads.text hzero hlen hshort, hreads.total_eq⟩
  · obtain rfl : lfns = 20 := by omega
    refine .inr ⟨by omega, ?_⟩
    rw [stateAfter_pieces_twenty state hpos le_rfl]
    exact not_ready_default

/-- The entry is read from the slots that were written for it. -/
lemma entryAt_new (hzero : ∀ ch ∈ name, ch ≠ 0)
    (hattr : attr = 0 ∨ attr = attrDirectory) (hclus : cluster < 2 ^ 32)
    (hstate : ¬ state.Ready) (start : Nat) :
    entryAt (shortDirent raw attr cluster)
      (stateAfter state (pieces name lfns (shortNameChecksum raw) lfns)) (start + lfns) =
      some (readEntry name raw lfns attr cluster start) := by
  obtain ⟨base, ext, hparts⟩ := hplanned.raw_short
  rw [entryAt, fillFile_of_isEntry (isEntry_shortDirent hparts hattr), Option.map_some,
    rawName_shortDirent hparts.length, firstCluster_shortDirent hclus, fileSize_shortDirent,
    attr_shortDirent, readEntry]
  rcases stateAfter_pieces hplanned hzero (shortNameChecksum raw) hstate with
    ⟨hpos, hle, hready, hsum, htext, htotal⟩ | ⟨hnot, hnotReady⟩
  · rw [if_pos ⟨hready, hsum⟩, if_pos ⟨hready, hsum⟩, if_pos ⟨hpos, hle⟩, if_pos ⟨hpos, hle⟩, htext,
      htotal]
  · rw [if_neg (fun h => hnotReady h.1), if_neg (fun h => hnotReady h.1), if_neg hnot, if_neg hnot]

omit hplanned

lemma pieces_isLfn (hle : lfns ≤ 20) {count : Nat} (hcount : count ≤ lfns) (checksum : UInt8) :
    ∀ slot ∈ pieces name lfns checksum count, slot.isFree = false ∧ slot.isLfn = true := by
  intro slot hslot
  obtain ⟨i, hi, rfl⟩ := mem_map.mp hslot
  rw [mem_range] at hi
  exact ⟨isFree_populate (by omega) (by omega), isLfn_populate⟩

lemma entriesFrom_isLfn {row : List Slot}
    (hrow : ∀ slot ∈ row, slot.isFree = false ∧ slot.isLfn = true)
    (state : LfnState) (index : Nat) :
    entriesFrom state index row = [] := by
  induction row generalizing state index with
  | nil => rfl
  | cons slot row ih =>
    rw [forall_mem_cons] at hrow
    obtain ⟨⟨hfree, hlfn⟩, hrow⟩ := hrow
    have hslot : slot.isEntry = false := by simp [Slot.isEntry, hlfn]
    rw [entriesFrom, if_neg (by simp [(Slot.isFree_eq_false.mp hfree).1]),
      entryAt_of_not_isEntry hslot, ih hrow]
    rfl

/-- What is read of the slots of a new entry joins the entries that were there. -/
lemma entries_put (hfront : ∀ slot ∈ front, slot.isEnd = false)
    (hle : lfns ≤ 20) (hentry : (shortDirent raw attr cluster).isEntry = true) :
    entries (front ++ (entrySlots name raw lfns attr cluster ++ back)) =
      entries front ++ ((entryAt (shortDirent raw attr cluster) (stateAfter (stateAfter {} front)
          (pieces name lfns (shortNameChecksum raw) lfns)) (front.length + lfns)).toList ++
        entriesFrom {} (front.length + (lfns + 1)) back) := by
  have hlfn := @pieces_isLfn name lfns hle lfns le_rfl (shortNameChecksum raw)
  have hslots : entrySlots name raw lfns attr cluster ++ back =
      pieces name lfns (shortNameChecksum raw) lfns ++ shortDirent raw attr cluster :: back := by
    simp [entrySlots, pieces]
  rw [entries, hslots, entriesFrom_append hfront,
    entriesFrom_append fun s hs => (Slot.isFree_eq_false.mp (hlfn s hs).1).1,
    entriesFrom_isLfn hlfn, entriesFrom,
    if_neg (by simp [(Slot.isEntry_iff.mp hentry).1]),
    stepState_of_not_isLfn (Slot.isEntry_iff.mp hentry).2.2.1]
  have hlen : (pieces name lfns (shortNameChecksum raw) lfns).length = lfns := by
    simp [pieces]
  rw [hlen, Nat.zero_add]
  rfl

variable (hspan : FreeSpan slots front free back)

include hspan

/-- The entries of a directory with a free row. -/
lemma FreeSpan.entries_eq (hended : Ended slots) (hne : free ≠ []) :
    entries slots = entries front ++ entriesFrom {} (front.length + free.length) back := by
  have hfront := hspan.front_not_isEnd hended
  have hendedRest : Ended (free ++ back) := fun before slot later heq =>
    hended (front ++ before) slot later (by rw [hspan.slots_eq, heq, append_assoc])
  rw [entries, hspan.slots_eq, entriesFrom_append hfront, entriesFrom_free hne hspan.free_isFree _ _
    hendedRest, Nat.zero_add]
  rfl

/-- A new entry joins those that were there. -/
lemma FreeSpan.entries_new (hended : Ended slots)
    (hplanned : Planned slots name raw lfns) (hzero : ∀ ch ∈ name, ch ≠ 0)
    (hattr : attr = 0 ∨ attr = attrDirectory) (hclus : cluster < 2 ^ 32)
    (hstate : ¬ (stateAfter {} front).Ready) :
    entries (front ++ (entrySlots name raw lfns attr cluster ++ back)) =
      entries front ++ readEntry name raw lfns attr cluster front.length ::
        entriesFrom {} (front.length + (lfns + 1)) back := by
  obtain ⟨base, ext, hparts⟩ := hplanned.raw_short
  rw [entries_put (hspan.front_not_isEnd hended) hplanned.count_le
    (isEntry_shortDirent hparts hattr),
    entryAt_new hplanned hzero hattr hclus hstate]
  rfl

omit hspan

include hplanned in
lemma wellNamed_readEntry (start : Nat) :
    WellNamed (readEntry name raw lfns attr cluster start) := by
  refine ⟨.inl hplanned.raw_short, ?_⟩
  obtain ⟨base, ext, hparts⟩ := hplanned.raw_short
  unfold readEntry
  split
  · intro hfits hlast
    exact (hplanned.exact hfits hlast).symm
  · intro _ _
    exact (normalize_of_sameName_format hparts (sameName_refl _)).2

/-- No name is answered to by the new entry and by one that was there. -/
lemma Unambiguous.insert {before after : List Entry} (hnames : Unambiguous (before ++ after))
    (hents : entries slots = before ++ after) (hplanned : Planned slots name raw lfns)
    (start : Nat) :
    Unambiguous (before ++ readEntry name raw lfns attr cluster start :: after) := by
  set new := readEntry name raw lfns attr cluster start with hnew
  obtain ⟨base, ext, hparts⟩ := hplanned.raw_short
  have hname : new.file.name = name ∨ new.file.name = formatName83 new.raw := by
    rw [hnew]
    unfold readEntry
    split
    · exact .inl rfl
    · exact .inr rfl
  have hapart : ∀ old ∈ before ++ after, Apart old new := fun old hold =>
    apart_of_new (hnames.named old hold) hparts hname
      (hplanned.unmatched old (hents ▸ hold)) (hplanned.fresh old (hents ▸ hold))
  obtain ⟨hbefore, hafter, hcross⟩ := pairwise_append.mp hnames.apart
  constructor
  case named =>
    simp only [mem_append, mem_cons]
    rintro entry (hentry | rfl | hentry)
    · exact hnames.named entry (mem_append_left _ hentry)
    · exact wellNamed_readEntry hplanned start
    · exact hnames.named entry (mem_append_right _ hentry)
  case apart =>
    rw [pairwise_append, pairwise_cons]
    refine ⟨hbefore, ⟨fun old hold => ?_, hafter⟩, fun old hold other hother => ?_⟩
    · exact (hapart old (mem_append_right _ hold)).symm
    · rcases mem_cons.mp hother with rfl | hother
      · exact hapart old (mem_append_left _ hold)
      · exact hcross old hold other hother

/-- While the pieces are read the name is not complete. -/
lemma followed_pieces (hle : lfns ≤ 20) (hstate : ¬ state.Ready) (checksum : UInt8)
    {count : Nat} (hcount : count ≤ lfns) :
    Followed state (pieces name lfns checksum count) := by
  induction count with
  | zero => trivial
  | succ count ih =>
    rw [pieces_succ, followed_append]
    refine ⟨ih (by omega), fun hready => absurd hready ?_, trivial⟩
    rcases Nat.eq_zero_or_pos count with rfl | hpos
    · exact hstate
    by_cases hshort : lfns ≤ 19
    · have hreads : Reads name lfns checksum count _ := reads_pieces state hshort hpos (by omega)
      have hnext := hreads.next
      rw [hready.2.1] at hnext
      omega
    · obtain rfl : lfns = 20 := by omega
      rw [stateAfter_pieces_twenty state hpos (by omega)]
      exact not_ready_default

include hspan in
lemma FreeSpan.not_ready (htidy : Tidy slots)
    (hne : free ≠ []) : ¬ (stateAfter {} front).Ready := by
  obtain ⟨first, rest, rfl⟩ := exists_cons_of_ne_nil hne
  intro hready
  have hfollow := htidy.followed
  rw [hspan.slots_eq, followed_append] at hfollow
  have hentry := (hfollow.2.1 hready).1
  obtain ⟨hend, hdel, -⟩ := Slot.isEntry_iff.mp hentry
  rcases Slot.isFree_iff.mp (hspan.free_isFree first mem_cons_self) with hfree | hfree
  · rw [hend] at hfree
    exact Bool.noConfusion hfree
  · rw [hdel] at hfree
    exact Bool.noConfusion hfree

/-- Placing an entry in a free row keeps the directory tidy. -/
lemma Tidy.insert (htidy : Tidy slots) (hspan : FreeSpan slots front free back)
    (hlen : free.length = lfns + 1) (hplanned : Planned slots name raw lfns)
    (hzero : ∀ ch ∈ name, ch ≠ 0) (hattr : attr = 0 ∨ attr = attrDirectory)
    (hclus : cluster < 2 ^ 32) :
    Tidy (front ++ (entrySlots name raw lfns attr cluster ++ back)) := by
  have hne : free ≠ [] := ne_nil_of_length_eq_add_one hlen
  have hstate := hspan.not_ready htidy hne
  obtain ⟨base, ext, hparts⟩ := hplanned.raw_short
  have hlfn := @pieces_isLfn name lfns hplanned.count_le lfns le_rfl (shortNameChecksum raw)
  have hentry := @isEntry_shortDirent raw base ext attr cluster hparts hattr
  have hentryLfn := (Slot.isEntry_iff.mp hentry).2.2.1
  have hslots : entrySlots name raw lfns attr cluster ++ back =
      pieces name lfns (shortNameChecksum raw) lfns ++ shortDirent raw attr cluster :: back := by
    simp [entrySlots, pieces]
  have hfollow := htidy.followed
  have hnotReady := htidy.notReady
  rw [hspan.slots_eq, followed_append, followed_append, stateAfter_free hne hspan.free_isFree]
    at hfollow
  rw [hspan.slots_eq, stateAfter_append, stateAfter_append, stateAfter_free hne hspan.free_isFree]
    at hnotReady
  constructor
  case ended =>
    have hended := htidy.ended
    rw [hspan.slots_eq] at hended
    refine Ended.append (hspan.front_not_isEnd htidy.ended)
      (Ended.append ?_ hended.of_append.of_append)
    simp only [entrySlots, mem_append, mem_singleton]
    rintro slot (hslot | rfl)
    · exact (Slot.isFree_eq_false.mp (hlfn slot hslot).1).1
    · exact (Slot.isEntry_iff.mp hentry).1
  case followed =>
    rw [hslots, followed_append, followed_append]
    refine ⟨hfollow.1, followed_pieces hplanned.count_le hstate _ le_rfl, fun hready => ?_, ?_⟩
    · refine ⟨hentry, ?_⟩
      rw [rawName_shortDirent hparts.length]
      rcases stateAfter_pieces hplanned hzero (shortNameChecksum raw) hstate with
        ⟨-, -, -, hsum, -⟩ | ⟨-, hnot⟩
      · exact hsum
      · exact absurd hready hnot
    · rw [stepState_of_not_isLfn hentryLfn]
      exact hfollow.2.2
  case notReady =>
    rw [hslots, stateAfter_append, stateAfter_append, stateAfter_cons,
      stepState_of_not_isLfn hentryLfn]
    exact hnotReady
  case names =>
    rw [hspan.entries_new htidy.ended hplanned hzero hattr hclus hstate]
    have hold := hspan.entries_eq htidy.ended hne
    rw [hlen] at hold
    exact (hold ▸ htidy.names).insert hold hplanned front.length

end Create

/-! ## Growth -/

section Grow

variable {slots zeros : List Slot}

lemma entriesFrom_append_isEnd (hzeros : ∀ slot ∈ zeros, slot.isEnd = true) (state : LfnState)
    (index : Nat) : entriesFrom state index (slots ++ zeros) = entriesFrom state index slots := by
  induction slots generalizing state index with
  | nil => exact entriesFrom_of_isEnd hzeros state index
  | cons slot slots ih => rw [cons_append, entriesFrom, entriesFrom, ih]

lemma Ended.append_zeros (hended : Ended slots) (hzeros : ∀ slot ∈ zeros, slot.isEnd = true) :
    Ended (slots ++ zeros) := by
  intro before slot later heq hend final hfinal
  rcases append_eq_append_iff.mp heq with ⟨mid, rfl, hsplit⟩ | ⟨mid, hsplit, hlater⟩
  · exact hzeros final (by rw [hsplit]; simp [hfinal])
  cases mid with
  | nil =>
    rw [nil_append] at hlater
    exact hzeros final (by rw [← hlater]; simp [hfinal])
  | cons first mid =>
    obtain ⟨rfl, rfl⟩ := hlater
    rcases mem_append.mp hfinal with hmid | hmem
    · exact hended before slot mid hsplit hend final hmid
    · exact hzeros final hmem

/-- Cleared slots at the end keep the directory tidy. -/
lemma Tidy.grow (htidy : Tidy slots) (hzeros : ∀ slot ∈ zeros, slot.isEnd = true) :
    Tidy (slots ++ zeros) where
  ended := htidy.ended.append_zeros hzeros
  followed := by
    rw [followed_append]
    exact ⟨htidy.followed, followed_free (fun s hs => Slot.isFree_iff.mpr (.inl (hzeros s hs)))
      htidy.notReady⟩
  notReady := by
    rw [stateAfter_append]
    cases zeros with
    | nil => exact htidy.notReady
    | cons slot zeros =>
      rw [stateAfter_free (by simp) fun s hs => Slot.isFree_iff.mpr (.inl (hzeros s hs))]
      exact not_ready_default
  names := by
    rw [entries, entriesFrom_append_isEnd hzeros]
    exact htidy.names

lemma Planned.congr {lfns : Nat} {grown : List Slot}
    (hplanned : Planned slots name raw lfns) (hents : entries grown = entries slots) :
    Planned grown name raw lfns :=
  { hplanned with
    unmatched := hents ▸ hplanned.unmatched
    fresh := hents ▸ hplanned.fresh }

lemma replicate_zero_isEnd (count : Nat) : ∀ slot ∈ List.replicate count Slot.zero,
    slot.isEnd = true := by
  intro slot hslot
  rw [eq_of_mem_replicate hslot]
  rfl

end Grow

/-! ## Removal -/

section Remove

variable {slots front back before row : List Slot} {slot : Slot} {entry : Entry}

lemma Unambiguous.sublist {some all : List Entry} (hnames : Unambiguous all)
    (hsub : some.Sublist all) : Unambiguous some :=
  ⟨fun entry hentry => hnames.named entry (hsub.subset hentry), hnames.apart.sublist hsub⟩

variable (hat : EntryAt {} 0 slots entry front slot back)

include hat in
/-- The entries of a directory before an entry, the entry, and those after it. -/
lemma EntryAt.entries_eq
    (hfront : front = before ++ row) (hrow : ∀ s ∈ row, s.isFree = false ∧ s.isLfn = true) :
    entries slots = entries before ++ entry :: entriesFrom {} (front.length + 1) back := by
  obtain ⟨hend, -, hlfn, -⟩ := Slot.isEntry_iff.mp hat.isEntry
  have hnotEnd := hat.front_not_isEnd
  have hentry := hat.entry_eq
  rw [entries, hat.slots_eq, entriesFrom_append hnotEnd, entriesFrom,
    if_neg (by simp [hend]), hentry, stepState_of_not_isLfn hlfn, Nat.zero_add]
  rw [hfront] at hnotEnd ⊢
  rw [entriesFrom_append fun s hs => hnotEnd s (mem_append_left _ hs), entriesFrom_isLfn hrow,
    append_nil]
  rfl

/-- The slots of a directory after the slots of an entry were marked. -/
def removedSlots (before row : List Slot) (slot : Slot) (back : List Slot) : List Slot :=
  before ++ row.map (deletedSlot false) ++ deletedSlot true slot :: back

lemma removedSlots_eq : removedSlots before row slot back =
    before ++ ((row.map (deletedSlot false) ++ [deletedSlot true slot]) ++ back) := by
  simp [removedSlots]

lemma marked_isFree : ∀ s ∈ row.map (deletedSlot false) ++ [deletedSlot true slot],
    s.isFree = true := by
  simp only [mem_append, mem_map, mem_singleton]
  rintro s (⟨old, -, rfl⟩ | rfl)
  · exact isFree_deletedSlot false old
  · exact isFree_deletedSlot true slot

lemma marked_not_isEnd : ∀ s ∈ row.map (deletedSlot false) ++ [deletedSlot true slot],
    s.isEnd = false := by
  simp only [mem_append, mem_map, mem_singleton]
  rintro s (⟨old, -, rfl⟩ | rfl) <;> rfl

lemma entriesFrom_marked {marked : List Slot} (hfree : ∀ s ∈ marked, s.isFree = true)
    (state : LfnState) (index : Nat) : entriesFrom state index marked = [] := by
  induction marked generalizing state index with
  | nil => rfl
  | cons s marked ih =>
    rw [forall_mem_cons] at hfree
    have hentry : s.isEntry = false := by
      by_contra hentry
      rw [Bool.not_eq_false, Slot.isEntry_iff] at hentry
      rcases Slot.isFree_iff.mp hfree.1 with hend | hdel
      · rw [hentry.1] at hend
        exact Bool.noConfusion hend
      · rw [hentry.2.1] at hdel
        exact Bool.noConfusion hdel
    rw [entriesFrom, entryAt_of_not_isEntry hentry, ih hfree.2]
    split <;> rfl

include hat

/-- The entries that are left after the slots of an entry were marked. -/
lemma EntryAt.entries_removed (hfront : front = before ++ row) :
    entries (removedSlots before row slot back) =
      entries before ++ entriesFrom {} (front.length + 1) back := by
  have hbefore : ∀ s ∈ before, s.isEnd = false := fun s hs =>
    hat.front_not_isEnd s (hfront ▸ mem_append_left _ hs)
  rw [entries, removedSlots_eq, entriesFrom_append hbefore, entriesFrom_append marked_not_isEnd,
    entriesFrom_marked marked_isFree, stateAfter_free (by simp) marked_isFree, hfront]
  simp [entries, Nat.add_assoc]

/-- Before the pieces of an entry no long name is complete: the next slot would have to
be the entry it belongs to. -/
lemma EntryAt.not_ready (hfront : front = before ++ row)
    (hcount : row.length = entry.file.lfnEntryCount)
    (hrow : ∀ s ∈ row, s.isFree = false ∧ s.isLfn = true) (htidy : Tidy slots) :
    ¬ (stateAfter {} before).Ready := by
  intro hready
  have hfollow := htidy.followed
  cases row with
  | nil =>
    rw [append_nil] at hfront
    subst hfront
    rw [hat.slots_eq, followed_append] at hfollow
    have hsum := (hfollow.2.1 hready).2
    have hentry := hat.entry_eq
    rw [entryAt, fillFile_of_isEntry hat.isEntry, Option.map_some, Option.some.injEq] at hentry
    rw [← hentry] at hcount
    dsimp only at hcount
    rw [if_pos ⟨hready, hsum⟩, length_nil] at hcount
    have hpieces := (exists_pieces_of_valid hready.1).1
    omega
  | cons first row =>
    rw [hat.slots_eq, hfront, append_assoc, followed_append] at hfollow
    have hentry := (hfollow.2.1 hready).1
    rw [Slot.isEntry_iff, (hrow first mem_cons_self).2] at hentry
    exact Bool.noConfusion hentry.2.2.1

omit hat

/-- Removing an entry keeps the directory tidy. -/
lemma Tidy.remove (htidy : Tidy slots) (hat : EntryAt {} 0 slots entry front slot back)
    (hfront : front = before ++ row) (hcount : row.length = entry.file.lfnEntryCount)
    (hrow : ∀ s ∈ row, s.isFree = false ∧ s.isLfn = true) :
    Tidy (removedSlots before row slot back) := by
  have hstate := hat.not_ready hfront hcount hrow htidy
  have hlfn := (Slot.isEntry_iff.mp hat.isEntry).2.2.1
  have hslots : slots = before ++ (row ++ slot :: back) := by
    rw [hat.slots_eq, hfront, append_assoc]
  have hfollow := htidy.followed
  have hnotReady := htidy.notReady
  rw [hslots, followed_append, followed_append] at hfollow
  rw [hslots, stateAfter_append, stateAfter_append, stateAfter_cons, stepState_of_not_isLfn hlfn]
    at hnotReady
  constructor
  case ended =>
    have hended := htidy.ended
    rw [hat.slots_eq, append_cons] at hended
    rw [removedSlots_eq]
    apply Ended.append _ (Ended.append marked_not_isEnd hended.of_append)
    exact fun s hs => hat.front_not_isEnd s (hfront ▸ mem_append_left _ hs)
  case followed =>
    rw [removedSlots_eq, followed_append, followed_append, stateAfter_free (by simp) marked_isFree]
    refine ⟨hfollow.1, followed_free marked_isFree hstate, ?_⟩
    have hback := hfollow.2.2.2
    rwa [stepState_of_not_isLfn hlfn] at hback
  case notReady =>
    rw [removedSlots_eq, stateAfter_append, stateAfter_append,
      stateAfter_free (by simp) marked_isFree]
    exact hnotReady
  case names =>
    rw [hat.entries_removed hfront]
    apply htidy.names.sublist
    rw [hat.entries_eq hfront hrow]
    exact (sublist_cons_self _ _).append_left _

end Remove

end NexOS.Fat32
