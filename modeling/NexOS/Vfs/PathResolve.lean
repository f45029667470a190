import NexOS.Lib.PathText

/-! # Resolving the paths of a process

A path that a process passes to a call is copied out of its memory and made absolute.
The result is edited in place: each segment is appended to it or takes the last one off.
-/

namespace NexOS.Vfs

open List PathText Nat Option

/-- `NOS_PATH_BUFFER_SIZE`, which is also `NOS_NAME_BUFFER_SIZE`. -/
def pathBufferSize : Nat := 256

/-- `path_pop_segment`: cut the text at its last slash, but keep the first one. -/
def pathPopSegment (path : List Char) : List Char :=
  let kept := path.reverse.dropWhile (· ≠ '/')
  if kept.length ≤ 1 then ['/'] else (kept.drop 1).reverse

/-- A name is added to a path, if it fits. -/
def pathAppendSegment (path : List Char) (pathSize : Nat) (segment : List Char) :
    Option (List Char) :=
  if segment = [] ∨ path = [] ∨ pathSize ≤ path.length then none
  else if path ≠ ['/'] ∧ pathSize ≤ path.length + 1 then none
  else
    let path := if path = ['/'] then path else path ++ ['/']
    if pathSize ≤ path.length + segment.length then none else some (path ++ segment)

/-- One name of the input: a dot, two dots or a name. -/
def resolveSegment (outSize : Nat) (out segment : List Char) : Option (List Char) :=
  if pathBufferSize ≤ segment.length then none
  else if segment = ['.'] then some out
  else if segment = ['.', '.'] then some (pathPopSegment out)
  else pathAppendSegment out outSize segment

/-- `fs_resolve_process_path`. The loop skips slashes and reads up to the next one. -/
def fsResolveProcessPath (cwd input : List Char) (outSize : Nat) : Option (List Char) :=
  if outSize < 2 then none
  else
    let out := if input.head? = some '/' then ['/'] else cwd.take (outSize - 1)
    if input = [] ∨ input = ['.'] then some out
    else (segments '/' input).foldlM (resolveSegment outSize) out

/-- `USER_PAGE_SIZE`. -/
def userPageSize : Nat := 4096

/-- The pages that a process can read, those that are loaded when it does included. -/
abbrev UserMemory : Type := Nat → Option (Nat → Char)

/-- A character, if its page is mapped. -/
def UserMemory.read (memory : UserMemory) (address : Nat) : Option Char :=
  (memory (address / userPageSize)).map fun page => page (address % userPageSize)

/-- The loop of `syscall_copy_user_cstr`, with room for `room` characters and a terminator. A
round copies up to the end of a page or of the room. -/
def copyChunks (memory : UserMemory) (current room : Nat) : Option (List Char) :=
  if room = 0 then some []
  else
    let chunk := min (userPageSize - current % userPageSize) room
    match memory (current / userPageSize) with
    | none => none
    | some page =>
      let chars := (range chunk).map fun i => page (current % userPageSize + i)
      if '\x00' ∈ chars then some (chars.takeWhile (· ≠ '\x00'))
      else (copyChunks memory (current + chunk) (room - chunk)).map (chars ++ ·)
termination_by room
decreasing_by
  have hpage := Nat.mod_lt current (show 0 < userPageSize by decide)
  omega

/-- The loop of `x86_32_copy_user_cstr`, which fails if it ends without a terminator. -/
def copyCharsOrFail (memory : UserMemory) : Nat → Nat → Option (List Char)
  | _, 0 => none
  | current, room + 1 =>
    match memory.read current with
    | none => none
    | some ch =>
      if ch = '\x00' then some [] else (copyCharsOrFail memory (current + 1) room).map (ch :: ·)

/-- The two ports of the kernel. -/
inductive Port where
  | x8664
  | i386
  deriving DecidableEq

/-- The `copy_user_cstr` of the calls: `syscall_copy_user_cstr` on x86_64, and
`x86_32_copy_user_cstr` through the operations of the architecture on i386. -/
def copyUserCstr (port : Port) (memory : UserMemory) (address maxLen : Nat) :
    Option (List Char) :=
  match port with
  | .x8664 => if address = 0 then none else copyChunks memory address (maxLen - 1)
  | .i386 => copyCharsOrFail memory address (maxLen - 1)

/-- `syscall_common_copy_resolved_user_path`, as every call with a path uses it. The source of a
mount is copied by `copyUserCstr` alone. -/
def copyResolvedUserPath (port : Port) (cwd : List Char) (memory : UserMemory) (address : Nat) :
    Option (List Char) :=
  (copyUserCstr port memory address pathBufferSize).bind fun input =>
    fsResolveProcessPath cwd input pathBufferSize

/-! ## What a path stands for -/

/-- The path as it is written. -/
def absoluteText (names : List (List Char)) : List Char :=
  if names = [] then ['/'] else names.flatMap ('/' :: ·)

/-- Segments of a path without `.`, `..` and repeated slashes. -/
def Canonical (names : List (List Char)) : Prop :=
  ∀ name ∈ names, name ≠ [] ∧ '/' ∉ name ∧ name ≠ ['.'] ∧ name ≠ ['.', '.']

/-- A current directory: it is canonical and fits where the process keeps it. -/
structure WorkingDir where
  names : List (List Char)
  canonical : Canonical names
  fits : (absoluteText names).length < pathBufferSize

/-- Where a segment leads. The root is its own parent. -/
def follow (names : List (List Char)) (segment : List Char) : List (List Char) :=
  if segment = ['.'] then names
  else if segment = ['.', '.'] then names.dropLast
  else names ++ [segment]

/-- Where the input begins. -/
def startNames (cwd : WorkingDir) (input : List Char) : List (List Char) :=
  if input.head? = some '/' then [] else cwd.names

/-- The segments left after following a path from the start to its end. -/
def resolvedNames (cwd : WorkingDir) (input : List Char) : List (List Char) :=
  (segments '/' input).foldl follow (startNames cwd input)

/-- No segment of the path is too long, and neither is the text of any directory on
the way. -/
def FitsOnTheWay (cwd : WorkingDir) (input : List Char) : Prop :=
  (∀ segment ∈ segments '/' input, segment.length < pathBufferSize) ∧
    ∀ names ∈ (segments '/' input).scanl follow (startNames cwd input),
      (absoluteText names).length < pathBufferSize

/-! ## The text follows the path -/

variable {names : List (List Char)} {name segment input : List Char} {outSize : Nat}
  {cwd : WorkingDir} {out : List Char}

lemma absoluteText_concat (names : List (List Char)) (name : List Char) :
    absoluteText (names ++ [name]) = names.flatMap ('/' :: ·) ++ '/' :: name := by
  simp [absoluteText]

lemma pathPopSegment_absoluteText (hnames : Canonical names) :
    pathPopSegment (absoluteText names) = absoluteText names.dropLast := by
  rcases eq_nil_or_concat' names with rfl | ⟨init, last, rfl⟩
  · decide
  have hlast := (hnames last (by simp)).2.1
  have hdrop : (last.reverse ++ '/' :: (init.flatMap ('/' :: ·)).reverse).dropWhile (· ≠ '/') =
      '/' :: (init.flatMap ('/' :: ·)).reverse := by
    rw [dropWhile_append_of_pos fun ch hch => by
      simpa using ne_of_mem_of_not_mem (mem_reverse.mp hch) hlast]
    simp
  rw [pathPopSegment, absoluteText_concat, dropLast_concat]
  simp only [reverse_append, reverse_cons, append_assoc, singleton_append, hdrop]
  cases init with
  | nil => simp [absoluteText]
  | cons first rest => simp [absoluteText]

lemma length_absoluteText_dropLast (names : List (List Char)) :
    (absoluteText names.dropLast).length ≤ (absoluteText names).length := by
  rcases eq_nil_or_concat' names with rfl | ⟨init, last, rfl⟩
  · exact le_rfl
  rw [absoluteText_concat, dropLast_concat]
  cases init with
  | nil => simp [absoluteText]
  | cons first rest => simp [absoluteText]

lemma canonical_follow (hnames : Canonical names) (hseg : segment ≠ [] ∧ '/' ∉ segment) :
    Canonical (follow names segment) := by
  unfold follow
  split_ifs with hdot hdots
  · exact hnames
  · exact fun name hname => hnames name (dropLast_subset _ hname)
  · intro name hname
    rcases mem_append.mp hname with hname | hname
    · exact hnames name hname
    · rw [mem_singleton.mp hname]
      exact ⟨hseg.1, hseg.2, hdot, hdots⟩

lemma pathAppendSegment_eq_some_iff (hseg : segment ≠ [])
    (hnames : Canonical names) (hfits : (absoluteText names).length < outSize) :
    pathAppendSegment (absoluteText names) outSize segment = some out ↔
      (absoluteText (names ++ [segment])).length < outSize ∧
        out = absoluteText (names ++ [segment]) := by
  have hnil : absoluteText names ≠ [] := by
    cases names <;> simp [absoluteText]
  have hroot : absoluteText names = ['/'] ↔ names = [] := by
    refine ⟨fun htext => ?_, fun hnames => hnames ▸ rfl⟩
    cases names with
    | nil => rfl
    | cons first rest => simp [absoluteText, (hnames first mem_cons_self).1] at htext
  unfold pathAppendSegment
  rw [if_neg (by simp [hseg, hnil]; omega), absoluteText_concat]
  by_cases hnames : names = []
  · subst hnames
    simp [absoluteText, eq_comm, and_comm, add_comm]
  · have htext : absoluteText names = names.flatMap ('/' :: ·) := if_neg hnames
    rw [htext] at hroot ⊢
    simp [hroot, hnames, eq_comm]
    refine and_assoc.symm.trans (and_congr_left' ?_)
    omega

/-- A round of the loop follows its segment, if the result fits. -/
lemma resolveSegment_eq_some_iff (hnames : Canonical names)
    (hseg : segment ≠ []) (hfits : (absoluteText names).length < outSize) :
    resolveSegment outSize (absoluteText names) segment = some out ↔
      segment.length < pathBufferSize ∧ (absoluteText (follow names segment)).length < outSize ∧
        out = absoluteText (follow names segment) := by
  have hpop := length_absoluteText_dropLast names
  unfold resolveSegment follow
  by_cases hlong : pathBufferSize ≤ segment.length
  · simp [hlong, Nat.not_lt.mpr hlong]
  split_ifs with hdot hdots
  · simp [hfits, Nat.lt_of_not_le hlong, eq_comm]
  · simp [pathPopSegment_absoluteText hnames, Nat.lt_of_not_le hlong, hpop.trans_lt hfits, eq_comm]
  · simp [pathAppendSegment_eq_some_iff hseg hnames hfits, Nat.lt_of_not_le hlong]

lemma foldlM_resolveSegment_iff {segments : List (List Char)}
    (hsegs : ∀ segment ∈ segments, segment ≠ [] ∧ '/' ∉ segment) (hnames : Canonical names)
    (hfits : (absoluteText names).length < outSize) :
    segments.foldlM (resolveSegment outSize) (absoluteText names) = some out ↔
      ((∀ segment ∈ segments, segment.length < pathBufferSize) ∧
        ∀ names' ∈ segments.scanl follow names, (absoluteText names').length < outSize) ∧
      out = absoluteText (segments.foldl follow names) := by
  induction segments generalizing names with
  | nil => simp [hfits, eq_comm]
  | cons segment rest ih =>
    rw [forall_mem_cons] at hsegs
    have hstep := fun out =>
      @resolveSegment_eq_some_iff names segment outSize out hnames hsegs.1.1 hfits
    simp only [foldlM_cons, bind_eq_bind, bind_eq_some_iff, hstep,
      scanl_cons, forall_mem_cons, foldl_cons, hfits, true_and]
    constructor
    · rintro ⟨_, ⟨hshort, hnext, rfl⟩, hrest⟩
      rw [ih hsegs.2 (canonical_follow hnames hsegs.1) hnext] at hrest
      exact ⟨⟨⟨hshort, hrest.1.1⟩, hrest.1.2⟩, hrest.2⟩
    · rintro ⟨⟨⟨hshort, hall⟩, hway⟩, hout⟩
      have hnext := hway (follow names segment) (by cases rest <;> simp)
      exact ⟨_, ⟨hshort, hnext, rfl⟩,
        (ih hsegs.2 (canonical_follow hnames hsegs.1) hnext).mpr ⟨⟨hall, hway⟩, hout⟩⟩

lemma canonical_foldl {segments : List (List Char)}
    (hsegs : ∀ segment ∈ segments, segment ≠ [] ∧ '/' ∉ segment) (hnames : Canonical names) :
    Canonical (segments.foldl follow names) ∧
      segments.foldl follow names ∈ segments.scanl follow names := by
  induction segments generalizing names with
  | nil => exact ⟨hnames, by simp⟩
  | cons segment rest ih =>
    rw [forall_mem_cons] at hsegs
    rw [scanl_cons, foldl_cons]
    exact (ih hsegs.2 (canonical_follow hnames hsegs.1)).imp_right (mem_cons_of_mem _)

/-- Following a canonical path only adds to where it starts. -/
lemma follow_canonical (hnames : Canonical names) (start : List (List Char)) :
    names.foldl follow start = start ++ names ∧ ∀ names' ∈ names.scanl follow start,
        (absoluteText names').length ≤ (absoluteText (start ++ names)).length := by
  induction names generalizing start with
  | nil => simp
  | cons name rest ih =>
    have hfollow : follow start name = start ++ [name] := by
      have hname := (hnames name mem_cons_self).2.2
      simp [follow, hname]
    obtain ⟨hfold, hway⟩ :=
      ih (fun name hmem => hnames name (mem_cons_of_mem _ hmem)) (start ++ [name])
    rw [foldl_cons, scanl_cons, forall_mem_cons, hfollow, hfold]
    rw [append_assoc, singleton_append] at hway ⊢
    refine ⟨rfl, ?_, hway⟩
    cases start <;> simp [absoluteText]

lemma segments_absoluteText (hnames : Canonical names) :
    segments '/' (absoluteText names) = names := by
  induction names using List.reverseRecOn with
  | nil => rfl
  | append_singleton init last ih =>
    have hinit : Canonical init := fun name hmem => hnames name (mem_append_left _ hmem)
    obtain ⟨hne, hslash, -⟩ := hnames last (by simp)
    have hsegs : segments '/' (init.flatMap ('/' :: ·)) = init := by
      cases init with
      | nil => rfl
      | cons first rest => exact ih hinit
    rw [absoluteText_concat, segments_append_sep, hsegs, segments_of_notMem hslash hne]

lemma WorkingDir.start_ok (cwd : WorkingDir) (input : List Char) :
    Canonical (startNames cwd input) ∧
      (absoluteText (startNames cwd input)).length < pathBufferSize := by
  unfold startNames
  split
  · exact ⟨fun name hname => absurd hname not_mem_nil, by decide⟩
  · exact ⟨cwd.canonical, cwd.fits⟩

/-- Resolving succeeds exactly if all fits on the way, and gives where the path leads. -/
lemma fsResolveProcessPath_eq_some_iff (cwd : WorkingDir) (input out : List Char) :
    fsResolveProcessPath (absoluteText cwd.names) input pathBufferSize = some out ↔
      FitsOnTheWay cwd input ∧ out = absoluteText (resolvedNames cwd input) := by
  have hstart : (if input.head? = some '/' then ['/']
      else (absoluteText cwd.names).take (pathBufferSize - 1)) =
        absoluteText (startNames cwd input) := by
    rw [take_of_length_le (le_sub_one_of_lt cwd.fits), startNames]
    split <;> rfl
  obtain ⟨hnames, hfits⟩ := cwd.start_ok input
  have hloop := @foldlM_resolveSegment_iff _ _ out (segments '/' input)
    (fun _ hmem => mem_segments hmem) hnames hfits
  unfold fsResolveProcessPath FitsOnTheWay resolvedNames
  rw [if_neg (by decide)]
  rw [hstart, ← hloop]
  split
  next hshort =>
    -- the two inputs that the function answers at once
    rcases hshort with rfl | rfl <;> rfl
  · rfl

lemma head?_absoluteText (names : List (List Char)) : (absoluteText names).head? = some '/' := by
  cases names <;> rfl

lemma resolvedNames_absoluteText (dir : WorkingDir) (hnames : Canonical names) :
    resolvedNames dir (absoluteText names) = names := by
  rw [resolvedNames, startNames, if_pos (head?_absoluteText names), segments_absoluteText hnames,
    (follow_canonical hnames []).1, nil_append]

lemma fsResolveProcessPath_absoluteText (dir : WorkingDir) (hnames : Canonical names)
    (hfits : (absoluteText names).length < pathBufferSize) :
    fsResolveProcessPath (absoluteText dir.names) (absoluteText names) pathBufferSize =
      some (absoluteText names) := by
  have hway := (follow_canonical hnames []).2
  rw [fsResolveProcessPath_eq_some_iff, FitsOnTheWay, resolvedNames_absoluteText dir hnames,
    startNames, if_pos (head?_absoluteText names), segments_absoluteText hnames]
  refine ⟨⟨fun name hname => ?_, fun names' hmem => (hway names' hmem).trans_lt hfits⟩, rfl⟩
  obtain ⟨before, after, rfl⟩ := append_of_mem hname
  simp [absoluteText] at hfits
  omega

/-- Resolving either fails or gives the canonical text of the path that the input stands
for, which is resolved to itself. It fails exactly when a segment or the result does not
fit, unless only a directory on the way does not fit. -/
theorem fsResolveProcessPath_canonical_iff (cwd : WorkingDir) (input : List Char) :
    let result := fsResolveProcessPath (absoluteText cwd.names) input pathBufferSize
    let fits := (∀ segment ∈ segments '/' input, segment.length < pathBufferSize) ∧
      (absoluteText (resolvedNames cwd input)).length < pathBufferSize
    ((result.isSome = true ↔ fits) ↔ (fits → FitsOnTheWay cwd input)) ∧
      ∀ out, result = some out → out = absoluteText (resolvedNames cwd input) ∧
        Canonical (resolvedNames cwd input) ∧
        ∀ dir : WorkingDir,
          fsResolveProcessPath (absoluteText dir.names) out pathBufferSize = some out := by
  intro result fits
  have hsome := fsResolveProcessPath_eq_some_iff cwd input
  have hisSome : result.isSome = true ↔ FitsOnTheWay cwd input := by
    rw [isSome_iff_exists]
    exact ⟨fun ⟨out, hout⟩ => ((hsome out).mp hout).1, fun hway => ⟨_, (hsome _).mpr ⟨hway, rfl⟩⟩⟩
  obtain ⟨hcanon, hlast⟩ := canonical_foldl (fun segment hmem => mem_segments hmem)
    (cwd.start_ok input).1
  have hfits : FitsOnTheWay cwd input → fits := fun hway => ⟨hway.1, hway.2 _ hlast⟩
  refine ⟨by tauto, fun out hout => ?_⟩
  obtain ⟨hway, rfl⟩ := (hsome out).mp hout
  exact ⟨rfl, hcanon, fun dir =>
    fsResolveProcessPath_absoluteText dir hcanon (hfits hway).2⟩

/-- In a directory whose text leaves room for nothing, `b/..` is refused, although it
stands for the directory itself. -/
theorem fsResolveProcessPath_refuses :
    let cwd : WorkingDir :=
      ⟨[List.replicate 253 'a'], by unfold Canonical; decide +kernel, by decide +kernel⟩
    resolvedNames cwd "b/..".toList = cwd.names ∧
      fsResolveProcessPath (absoluteText cwd.names) "b/..".toList pathBufferSize = none := by
  decide +kernel

/-! ## Paths in the memory of a process -/

/-- A string lies at an address, with its terminator. -/
structure HoldsString (memory : UserMemory) (address : Nat) (text : List Char) : Prop where
  plain : '\x00' ∉ text
  reads : ∀ i ≤ text.length, memory.read (address + i) = some ((text ++ ['\x00']).getD i '\x00')

variable {memory : UserMemory} {address : Nat} {text : List Char}

lemma HoldsString.drop (h : HoldsString memory address text) {n : Nat} (hn : n ≤ text.length) :
    HoldsString memory (address + n) (text.drop n) := by
  refine ⟨fun hmem => h.plain (mem_of_mem_drop hmem), fun i hi => ?_⟩
  rw [length_drop] at hi
  rw [add_assoc, h.reads (n + i) (by omega), ← drop_append_of_le_length hn]
  simp [getD_eq_getElem?_getD]

/-- A round of the loop copies a part of the string, or the rest of it and its terminator. -/
lemma HoldsString.take_chars (h : HoldsString memory address text) {page : Nat → Char} {chunk : Nat}
    (hpage : memory (address / userPageSize) = some page)
    (hchunk : address % userPageSize + chunk ≤ userPageSize) :
    ((range chunk).map fun i => page (address % userPageSize + i)).take (text.length + 1) =
      (text ++ ['\x00']).take chunk := by
  refine ext_getElem (by simp [min_comm]) fun i hi _ => ?_
  have hlt : i < chunk ∧ i ≤ text.length := by
    simp at hi
    omega
  have hread := h.reads i hlt.2
  have hdiv : (address + i) / userPageSize = address / userPageSize ∧
      (address + i) % userPageSize = address % userPageSize + i := by
    unfold userPageSize at *
    omega
  rw [UserMemory.read, hdiv.1, hdiv.2, hpage, map_some, Option.some_inj] at hread
  simpa [getD_eq_getElem?_getD, getElem?_eq_getElem (show i < (text ++ ['\x00']).length by
    simp; omega)] using hread

lemma copyChunks_eq (room : Nat) (h : HoldsString memory address text) :
    copyChunks memory address room = some (text.take room) := by
  induction room using Nat.strong_induction_on generalizing address text with
  | _ room ih =>
    rw [copyChunks]
    split
    next hroom => rw [hroom, take_zero]
    next hroom =>
    have hmod := Nat.mod_lt address (show 0 < userPageSize by decide)
    obtain ⟨page, hpage, -⟩ := map_eq_some_iff.mp (h.reads 0 (zero_le _))
    rw [add_zero] at hpage
    rw [hpage]
    dsimp only
    generalize hchunk : min (userPageSize - address % userPageSize) room = chunk
    have htake := h.take_chars hpage (show address % userPageSize + chunk ≤ userPageSize by omega)
    have hlen : ((range chunk).map fun i => page (address % userPageSize + i)).length = chunk := by
      simp
    generalize (range chunk).map (fun i => page (address % userPageSize + i)) =
      chars at htake hlen ⊢
    by_cases hlong : chunk ≤ text.length
    · -- the string goes on behind the chunk
      rw [take_of_length_le (by omega), take_append_of_le_length hlong] at htake
      rw [htake, if_neg fun hmem => h.plain (mem_of_mem_take hmem),
        ih (room - chunk) (by omega) (h.drop hlong), map_some, ← take_add,
        Nat.add_sub_cancel' (by omega)]
    · rw [@take_of_length_le _ chunk (text ++ ['\x00']) (by simp; omega)] at htake
      have hchars := take_append_drop (text.length + 1) chars
      rw [htake, append_assoc] at hchars
      rw [← hchars, if_pos (by simp), takeWhile_append_of_pos fun ch hch => by
        simpa using ne_of_mem_of_not_mem hch h.plain]
      simp [take_of_length_le (show text.length ≤ room by omega)]

lemma copyCharsOrFail_eq (room : Nat) (h : HoldsString memory address text) :
    copyCharsOrFail memory address room = if text.length < room then some text else none := by
  induction room generalizing address text with
  | zero => simp [copyCharsOrFail]
  | succ room ih =>
    have hfirst := h.reads 0 (zero_le _)
    rw [add_zero] at hfirst
    rw [copyCharsOrFail, hfirst]
    rcases text with _ | ⟨ch, rest⟩
    · simp
    have hne : ch ≠ '\x00' := fun hch => h.plain (by simp [hch])
    have hrest := ih (h.drop (show 1 ≤ (ch :: rest).length by simp))
    simp [hne, hrest]

lemma copyUserCstr_eq (port : Port) (haddr : address ≠ 0) (h : HoldsString memory address text) :
    copyUserCstr port memory address pathBufferSize =
      if port = .i386 ∧ pathBufferSize - 1 ≤ text.length then none
      else some (text.take (pathBufferSize - 1)) := by
  cases port with
  | x8664 => simp [copyUserCstr, haddr, copyChunks_eq _ h]
  | i386 =>
    simp only [copyUserCstr, copyCharsOrFail_eq _ h, true_and]
    split_ifs
    · omega
    · rw [take_of_length_le (by omega)]
    · rfl
    · omega

/-! ## Paths that are cut -/

lemma length_follow_le (names : List (List Char)) (segment : List Char) :
    ((follow names segment).flatMap ('/' :: ·)).length ≤
      (names.flatMap ('/' :: ·)).length + (segment.length + 1) := by
  unfold follow
  split_ifs
  · omega
  · rcases eq_nil_or_concat' names with rfl | ⟨init, last, rfl⟩
    · simp
    · simp
      omega
  · simp

lemma length_scanl_follow_le (segments names : List (List Char)) :
    ∀ names' ∈ segments.scanl follow names, (names'.flatMap ('/' :: ·)).length ≤
      (names.flatMap ('/' :: ·)).length + (segments.flatMap ('/' :: ·)).length := by
  induction segments generalizing names with
  | nil => simp
  | cons segment rest ih =>
    rw [scanl_cons, forall_mem_cons]
    refine ⟨by simp, fun names' hmem => (ih _ names' hmem).trans ?_⟩
    have hstep := length_follow_le names segment
    simp only [flatMap_cons, length_append, length_cons] at hstep ⊢
    omega

/-- An absolute path that fits the buffer is not refused. -/
lemma fitsOnTheWay_of_length (hinput : input.head? = some '/')
    (hlen : input.length < pathBufferSize) : FitsOnTheWay cwd input := by
  obtain ⟨rest, rfl⟩ : ∃ rest, input = '/' :: rest := by
    cases input <;> simp_all
  have hsegs := @length_flatMap_collect _ _ '/' [] rest
  have hsame : segments '/' ('/' :: rest) = collect '/' [] rest := by
    simp [segments, collect]
  rw [length_cons] at hlen
  rw [FitsOnTheWay, startNames, if_pos hinput, hsame]
  refine ⟨fun segment hmem => ?_, fun names hmem => ?_⟩
  · obtain ⟨before, after, heq⟩ := append_of_mem hmem
    rw [heq] at hsegs
    simp at hsegs
    omega
  · have hway := length_scanl_follow_le _ _ names hmem
    unfold absoluteText
    split
    · decide
    · rw [flatMap_nil, length_nil] at hway
      rw [length_nil] at hsegs
      omega

/-- On i386 a string that is too long is refused. On x86_64 the source of a mount is the complete
string exactly if that fits the buffer. Then a path that is acted on is the one that the complete
string stands for, and for an absolute path without `.`, `..` and repeated slashes only then. -/
theorem copyResolvedUserPath_complete (port : Port) (cwd : WorkingDir) (memory : UserMemory)
    (address : Nat) (text : List Char) (haddr : address ≠ 0)
    (htext : HoldsString memory address text) :
    let fits := port = .i386 ∨ text.length < pathBufferSize
    let complete := ∀ out, copyResolvedUserPath port (absoluteText cwd.names) memory address =
      some out → out = absoluteText (resolvedNames cwd text)
    ((∀ source, copyUserCstr port memory address pathBufferSize = some source → source = text) ↔
        fits) ∧
      (fits → complete) ∧
      ∀ names, Canonical names → text = absoluteText names → complete → fits := by
  intro fits complete
  have hcopy := copyUserCstr_eq port haddr htext
  have hsource : (∀ source, copyUserCstr port memory address pathBufferSize = some source →
      source = text) ↔ fits := by
    rw [hcopy]
    constructor
    · intro hall
      by_contra hnot
      obtain ⟨hport, hlong⟩ := not_or.mp hnot
      have hsame := congrArg length (hall _ (if_neg fun h => hport h.1))
      have hmin : min (pathBufferSize - 1) text.length < pathBufferSize :=
        min_lt_of_left_lt (by decide)
      rw [← length_take, hsame] at hmin
      exact hlong hmin
    · intro hfits source hcopied
      split_ifs at hcopied with hrefused
      rw [← Option.some.inj hcopied, take_of_length_le]
      rcases hfits with hport | hshort
      · exact le_of_not_ge fun hlong => hrefused ⟨hport, hlong⟩
      · omega
  refine ⟨hsource, fun hfits out hout => ?_, fun names hnames heq hcomplete => ?_⟩
  · obtain ⟨source, hcopied, hres⟩ := bind_eq_some_iff.mp hout
    rw [hsource.mpr hfits source hcopied, fsResolveProcessPath_eq_some_iff] at hres
    exact hres.2
  · by_contra hnot
    obtain ⟨hport, hlong⟩ := not_or.mp hnot
    have hhead : (text.take (pathBufferSize - 1)).head? = some '/' := by
      rw [heq, head?_take, if_neg (by decide), head?_absoluteText]
    have hway : FitsOnTheWay cwd (text.take (pathBufferSize - 1)) :=
      fitsOnTheWay_of_length hhead (length_take .. ▸ min_lt_of_left_lt (by decide))
    have hout := hcomplete (absoluteText (resolvedNames cwd (text.take (pathBufferSize - 1)))) (by
      rw [copyResolvedUserPath, hcopy, if_neg fun h => hport h.1, bind_some,
        fsResolveProcessPath_eq_some_iff]
      exact ⟨hway, rfl⟩)
    have hlen := hway.2 _ (canonical_foldl (fun _ hmem => mem_segments hmem) (cwd.start_ok _).1).2
    rw [heq, resolvedNames_absoluteText cwd hnames, ← heq] at hout
    rw [resolvedNames] at hout
    rw [hout] at hlen
    exact hlong hlen

def rootDir : WorkingDir := ⟨[], by simp [Canonical], by decide⟩

/-- A memory that holds a string and zeros behind it. -/
def stringAt (text : List Char) (address : Nat) : UserMemory :=
  fun page => some fun offset =>
    (text ++ ['\x00']).getD (page * userPageSize + offset - address) '\x00'

lemma holdsString_stringAt (hplain : '\x00' ∉ text) (address : Nat) :
    HoldsString (stringAt text address) address text := by
  refine ⟨hplain, fun i _ => ?_⟩
  have hplace := Nat.div_add_mod' (address + i) userPageSize
  simp only [UserMemory.read, stringAt, map_some, hplace, Nat.add_sub_cancel_left]

/-- A path across the border of two pages. -/
theorem copyResolvedUserPath_etc : "etc".toList.length < pathBufferSize ∧
    ∀ out, copyResolvedUserPath .x8664 (absoluteText rootDir.names) (stringAt "etc".toList 4094)
        4094 = some out →
      out = absoluteText (resolvedNames rootDir "etc".toList) := by
  have hshort : "etc".toList.length < pathBufferSize := by decide +kernel
  exact ⟨hshort, (copyResolvedUserPath_complete .x8664 rootDir _ 4094 _ (by decide)
    (holdsString_stringAt (by decide) _)).2.1 (.inr hshort)⟩

/-- The name `b` behind two hundred and fifty-four slashes is cut off. -/
theorem copyResolvedUserPath_cuts :
    let text := 'a' :: List.replicate 254 '/' ++ ['b']
    copyResolvedUserPath .x8664 (absoluteText rootDir.names) (stringAt text 4096) 4096 =
        some "/a".toList ∧
      absoluteText (resolvedNames rootDir text) = "/a/b".toList := by
  intro text
  refine ⟨?_, by decide +kernel⟩
  decide +kernel

end NexOS.Vfs
