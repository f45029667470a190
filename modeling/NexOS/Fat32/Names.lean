import Mathlib

/-! # Short names

Every entry of a directory has a short name of eight and three bytes, padded with
blanks. A name that is a short name up to case is stored as it is; for every other
name a short alias is made from its characters and a serial number. Names are
compared without regard to the case of ASCII letters.
-/

namespace NexOS.Fat32

open List

/-- The bytes of a text that is ended by a zero. -/
abbrev Name : Type := List UInt8

def blank : UInt8 := 0x20

def dot : UInt8 := 0x2e

def underscore : UInt8 := 0x5f

def tilde : UInt8 := 0x7e

def slash : UInt8 := 0x2f

/-- Letters of ASCII only. -/
def toUpper (ch : UInt8) : UInt8 := if 0x61 ≤ ch ∧ ch ≤ 0x7a then ch - 0x20 else ch

def toLower (ch : UInt8) : UInt8 := if 0x41 ≤ ch ∧ ch ≤ 0x5a then ch + 0x20 else ch

/-- Equality of names without regard to case, as `fat32_ascii_casecmp` finds it. -/
def sameName (lhs rhs : Name) : Bool := lhs.map toLower = rhs.map toLower

/-! ## Short names -/

/-- Characters besides letters and digits that a short name may have. -/
def shortPunctuation : List UInt8 :=
  [0x24, 0x25, 0x27, 0x2d, 0x5f, 0x40, 0x7e, 0x60, 0x21, 0x28, 0x29, 0x7b, 0x7d, 0x5e, 0x23, 0x26]

def shortNameCharAllowed (ch : UInt8) : Bool :=
  let ch := toUpper ch
  (0x41 ≤ ch ∧ ch ≤ 0x5a) ∨ (0x30 ≤ ch ∧ ch ≤ 0x39) ∨ ch ∈ shortPunctuation

/-- A character that is not allowed becomes an underscore. -/
def sanitizeShortChar (ch : UInt8) : UInt8 :=
  if shortNameCharAllowed (toUpper ch) then toUpper ch else underscore

/-- Text filled up with blanks. -/
def pad (width : Nat) (text : List UInt8) : List UInt8 :=
  text ++ List.replicate (width - text.length) blank

/-- The short name as a text, with a dot before an extension that is not empty. A zero byte
of the entry ends the text. -/
def formatName83 (raw : List UInt8) : Name :=
  let base := (raw.take 8).takeWhile fun ch => decide (ch ≠ blank)
  let ext := (raw.drop 8).takeWhile fun ch => decide (ch ≠ blank)
  (if ext = [] then base else base ++ dot :: ext).takeWhile fun ch => decide (ch ≠ 0)

/-- The loop of `fat32_normalize_name83`, with what was stored of base and extension. -/
def normalizeLoop (inExt : Bool) (base ext : List UInt8) : Name → List UInt8
  | [] => pad 8 base ++ pad 3 ext
  | ch :: rest =>
    if ch = dot then normalizeLoop true base ext rest
    else if inExt = false then
      normalizeLoop inExt
        (if base.length < 8 then base ++ [sanitizeShortChar ch] else base) ext rest
    else
      normalizeLoop inExt base (if ext.length < 3 then ext ++ [sanitizeShortChar ch] else ext) rest

/-- A name as eleven bytes of capital letters. -/
def normalizeName83 (input : Name) : List UInt8 := normalizeLoop false [] [] input

def isSpaceOrDot (text : Name) : Bool := text.all fun ch => ch = blank ∨ ch = dot

/-- The loop of `fat32_name_fits_short_exact`. -/
def fitsLoop (inExt : Bool) (baseLen extLen : Nat) (sawChar : Bool) : Name → Bool
  | [] => sawChar && baseLen ≠ 0
  | ch :: rest =>
    if ch = dot then
      if inExt then false else fitsLoop true baseLen extLen sawChar rest
    else if shortNameCharAllowed ch = false then false
    else if inExt = false then
      if 8 < baseLen + 1 then false else fitsLoop inExt (baseLen + 1) extLen true rest
    else if 3 < extLen + 1 then false
    else fitsLoop inExt baseLen (extLen + 1) true rest

/-- The name is a short name as it stands. -/
def nameFitsShortExact (input : Name) : Bool :=
  if input = [] ∨ isSpaceOrDot input then false else fitsLoop false 0 0 false input

def isLowercase (ch : UInt8) : Bool := 0x61 ≤ ch ∧ ch ≤ 0x7a

/-- The name gets a long entry. -/
def nameNeedsLfn (name : Name) : Bool :=
  if nameFitsShortExact name = false then true else name.any isLowercase

/-- The sum that ties a long name to its short slot. -/
def shortNameChecksum (raw : List UInt8) : UInt8 :=
  raw.foldl
    (fun (sum ch : UInt8) => (if sum &&& 1 ≠ 0 then (0x80 : UInt8) else 0) + (sum >>> 1) + ch) 0

/-! ## Aliases -/

/-- The name before its last dot, and what follows the dot. -/
def splitLastDot (input : Name) : Name × Option Name :=
  match input.reverse.findIdx? fun ch => ch = dot with
  | none => (input, none)
  | some k => (input.take (input.length - 1 - k), some (input.drop (input.length - k)))

/-- The characters of a text as an alias has them, as many as there is room for. -/
def aliasChars (room : Nat) (text : Name) : List UInt8 :=
  ((text.map sanitizeShortChar).filter fun ch => ch ≠ blank ∧ ch ≠ dot).take room

/-- Decimal digits of a serial number, least significant first. -/
def serialText : Nat → Nat → List UInt8
  | 0, _ => []
  | room + 1, value =>
    UInt8.ofNat (0x30 + value % 10) :: if value / 10 = 0 then [] else serialText room (value / 10)

/-- `fat32_make_short_alias`, for serial numbers of at most seven digits. -/
def makeShortAlias (input : Name) (serial : Nat) : List UInt8 :=
  let (front, back) := splitLastDot input
  let base := aliasChars 8 front
  let ext := aliasChars 3 (back.getD [])
  if serial = 0 ∧ nameFitsShortExact input then normalizeName83 input
  else
    let base := if base = [] then [underscore] else base
    let digits := serialText 8 serial
    let start := base.take (8 - (digits.length + 1))
    pad 8 (start ++ tilde :: digits.reverse.take (8 - (start.length + 1))) ++ pad 3 ext

/-! ## Facts about single characters -/

lemma forall_byte {p : UInt8 → Prop} (hall : ∀ n : Fin 256, p (UInt8.ofFin n)) (ch : UInt8) :
    p ch := by
  simpa using hall ch.toFin

/-- A character as it stands in a short name: allowed and not in lower case. -/
def ShortChar (ch : UInt8) : Prop := shortNameCharAllowed ch = true ∧ isLowercase ch = false

instance : DecidablePred ShortChar := fun ch => by unfold ShortChar; infer_instance

/-- What case and sanitizing do to the characters of names, one by one. -/
lemma charFacts (ch : UInt8) :
    (ShortChar (sanitizeShortChar ch) ∧ sanitizeShortChar (toLower ch) = sanitizeShortChar ch ∧
      shortNameCharAllowed (toLower ch) = shortNameCharAllowed ch ∧ (toLower ch = dot ↔ ch = dot)) ∧
    (ShortChar ch → (ch ≠ blank ∧ ch ≠ dot ∧ ch ≠ 0) ∧ sanitizeShortChar ch = ch) ∧
    (shortNameCharAllowed ch = true → toLower (sanitizeShortChar ch) = toLower ch ∧ ch ≠ dot) := by
  revert ch
  apply forall_byte
  decide +kernel

lemma shortChar_sanitize (ch : UInt8) : ShortChar (sanitizeShortChar ch) := (charFacts ch).1.1

variable {ch : UInt8} {baseLen extLen : Nat} {front name rest : Name} {text base ext : List UInt8}
  {saw : Bool}

lemma ShortChar.ne_blank (hch : ShortChar ch) : ch ≠ blank ∧ ch ≠ dot ∧ ch ≠ 0 :=
  ((charFacts ch).2.1 hch).1

/-- Case is all that sanitizing changes in an allowed character. -/
lemma sanitize_of_allowed (hch : shortNameCharAllowed ch = true) :
    toLower (sanitizeShortChar ch) = toLower ch :=
  ((charFacts ch).2.2 hch).1

lemma sanitize_of_shortChar (hch : ShortChar ch) : sanitizeShortChar ch = ch :=
  ((charFacts ch).2.1 hch).2

lemma sanitize_toLower (ch : UInt8) : sanitizeShortChar (toLower ch) = sanitizeShortChar ch ∧
      shortNameCharAllowed (toLower ch) = shortNameCharAllowed ch :=
  ⟨(charFacts ch).1.2.1, (charFacts ch).1.2.2.1⟩

lemma ne_dot_of_allowed (hch : shortNameCharAllowed ch = true) : ch ≠ dot :=
  ((charFacts ch).2.2 hch).2

lemma toLower_eq_dot : toLower ch = dot ↔ ch = dot := (charFacts ch).1.2.2.2

/-- A character that is a short one up to case is allowed, and is sanitized to it. -/
lemma sanitize_of_toLower {short : UInt8} (hshort : ShortChar short)
    (heq : toLower ch = toLower short) :
    shortNameCharAllowed ch = true ∧ sanitizeShortChar ch = short := by
  constructor
  · rw [← (sanitize_toLower ch).2, heq, (sanitize_toLower short).2]
    exact hshort.1
  · rw [← (sanitize_toLower ch).1, heq, (sanitize_toLower short).1, sanitize_of_shortChar hshort]

/-! ## Base and extension -/

/-- A short name made of a base and an extension of short characters. -/
structure ShortParts (raw base ext : List UInt8) : Prop where
  raw_eq : raw = pad 8 base ++ pad 3 ext
  base_ne_nil : base ≠ []
  base_le : base.length ≤ 8
  ext_le : ext.length ≤ 3
  base_short : ∀ ch ∈ base, ShortChar ch
  ext_short : ∀ ch ∈ ext, ShortChar ch

lemma length_pad {width : Nat} (hle : text.length ≤ width) : (pad width text).length = width := by
  simp [pad, Nat.add_sub_cancel' hle]

lemma takeWhile_pad (width : Nat) (hshort : ∀ ch ∈ text, ShortChar ch) :
    (pad width text).takeWhile (fun ch => decide (ch ≠ blank)) = text := by
  have hall : ∀ ch ∈ text, decide (ch ≠ blank) = true := fun ch hch =>
    decide_eq_true (hshort ch hch).ne_blank.1
  rw [pad, takeWhile_append_of_pos hall]
  cases width - text.length <;> simp [replicate_succ]

section Parts

variable {raw base ext raw' base' ext' : List UInt8}

lemma ShortParts.format (hparts : ShortParts raw base ext) :
    formatName83 raw = if ext = [] then base else base ++ dot :: ext := by
  have hlen := length_pad hparts.base_le
  rw [formatName83, hparts.raw_eq, take_left' hlen, drop_left' hlen,
    takeWhile_pad 8 hparts.base_short, takeWhile_pad 3 hparts.ext_short]
  refine takeWhile_eq_self_iff.mpr fun ch hch => decide_eq_true ?_
  have hchars : ch ∈ base ∨ ch = dot ∨ ch ∈ ext := by
    split at hch
    · exact .inl hch
    · simpa using hch
  rcases hchars with hch | rfl | hch
  · exact (hparts.base_short ch hch).ne_blank.2.2
  · decide
  · exact (hparts.ext_short ch hch).ne_blank.2.2

lemma ShortParts.length (hparts : ShortParts raw base ext) : raw.length = 11 := by
  rw [hparts.raw_eq, length_append, length_pad hparts.base_le, length_pad hparts.ext_le]

end Parts

/-- A name that is a base of allowed characters, with or without an extension. -/
structure NameParts (name base tail : Name) : Prop where
  name_eq : name = base ++ tail
  base_ne_nil : base ≠ []
  base_le : base.length ≤ 8
  base_allowed : ∀ ch ∈ base, shortNameCharAllowed ch = true
  tail_eq : tail = [] ∨ ∃ ext, tail = dot :: ext ∧ ext.length ≤ 3 ∧
    ∀ ch ∈ ext, shortNameCharAllowed ch = true

lemma normalizeLoop_base (hfront : ∀ ch ∈ front, ch ≠ dot)
    (hle : base.length + front.length ≤ 8) (ext : List UInt8) (rest : Name) :
    normalizeLoop false base ext (front ++ rest) =
      normalizeLoop false (base ++ front.map sanitizeShortChar) ext rest := by
  induction front generalizing base with
  | nil => simp
  | cons ch front ih =>
    rw [forall_mem_cons] at hfront
    rw [length_cons] at hle
    rw [cons_append, normalizeLoop, if_neg hfront.1, if_pos rfl, if_pos (by omega),
      ih hfront.2 (by simp; omega)]
    simp

lemma normalizeLoop_ext (hfront : ∀ ch ∈ front, ch ≠ dot) (base : List UInt8)
    (hle : ext.length + front.length ≤ 3) :
    normalizeLoop true base ext front =
      pad 8 base ++ pad 3 (ext ++ front.map sanitizeShortChar) := by
  induction front generalizing ext with
  | nil => simp [normalizeLoop]
  | cons ch front ih =>
    rw [forall_mem_cons] at hfront
    rw [length_cons] at hle
    rw [normalizeLoop, if_neg hfront.1, if_neg (by simp), if_pos (by omega),
      ih hfront.2 (by simp; omega)]
    simp

lemma fitsLoop_base (hfront : ∀ ch ∈ front, shortNameCharAllowed ch = true)
    (hle : baseLen + front.length ≤ 8) (extLen : Nat) (saw : Bool) (rest : Name) :
    fitsLoop false baseLen extLen saw (front ++ rest) =
      fitsLoop false (baseLen + front.length) extLen (saw || !front.isEmpty) rest := by
  induction front generalizing baseLen saw with
  | nil => simp
  | cons ch front ih =>
    rw [forall_mem_cons] at hfront
    rw [length_cons] at hle
    rw [cons_append, fitsLoop, if_neg (ne_dot_of_allowed hfront.1), if_neg (by simp [hfront.1]),
      if_pos rfl, if_neg (by omega), ih hfront.2 (by omega)]
    simp [Nat.add_comm, Nat.add_left_comm]

lemma fitsLoop_ext (hfront : ∀ ch ∈ front, shortNameCharAllowed ch = true)
    (hle : extLen + front.length ≤ 3) (hbase : baseLen ≠ 0) :
    fitsLoop true baseLen extLen true front = true := by
  induction front generalizing extLen with
  | nil => simp [fitsLoop, hbase]
  | cons ch front ih =>
    rw [forall_mem_cons] at hfront
    rw [length_cons] at hle
    rw [fitsLoop, if_neg (ne_dot_of_allowed hfront.1), if_neg (by simp [hfront.1]),
      if_neg (by simp), if_neg (by omega)]
    exact ih hfront.2 (by omega)

lemma fitsLoop_cons {inExt : Bool} (hdot : ch ≠ dot)
    (hfits : fitsLoop inExt baseLen extLen saw (ch :: rest) = true) :
    shortNameCharAllowed ch = true ∧
      ((inExt = false ∧ baseLen + 1 ≤ 8 ∧ fitsLoop false (baseLen + 1) extLen true rest = true) ∨
        (inExt = true ∧ extLen + 1 ≤ 3 ∧ fitsLoop true baseLen (extLen + 1) true rest = true)) := by
  rw [fitsLoop] at hfits
  cases hallowed : shortNameCharAllowed ch <;> cases inExt <;> simp_all

lemma of_fitsLoop_ext (hle : extLen ≤ 3) (hfits : fitsLoop true baseLen extLen saw rest = true) :
    extLen + rest.length ≤ 3 ∧ (∀ ch ∈ rest, shortNameCharAllowed ch = true) ∧ baseLen ≠ 0 := by
  induction rest generalizing extLen saw with
  | nil => simp_all [fitsLoop]
  | cons ch rest ih =>
    have hdot : ch ≠ dot := fun heq => by simp [fitsLoop, heq] at hfits
    obtain ⟨hallowed, ⟨hin, -⟩ | ⟨-, hroom, hrest⟩⟩ := fitsLoop_cons hdot hfits
    · simp at hin
    · obtain ⟨hlen, hall, hbase⟩ := ih hroom hrest
      refine ⟨by rw [length_cons]; omega, ?_, hbase⟩
      exact forall_mem_cons.mpr ⟨hallowed, hall⟩

lemma of_fitsLoop_base (hle : baseLen ≤ 8) (hfits : fitsLoop false baseLen 0 saw rest = true) :
    ∃ front tail, rest = front ++ tail ∧ baseLen + front.length ≤ 8 ∧
      (∀ ch ∈ front, shortNameCharAllowed ch = true) ∧ baseLen + front.length ≠ 0 ∧
      (tail = [] ∨ ∃ ext, tail = dot :: ext ∧ ext.length ≤ 3 ∧
        ∀ ch ∈ ext, shortNameCharAllowed ch = true) := by
  induction rest generalizing baseLen saw with
  | nil =>
    refine ⟨[], [], rfl, hle, nofun, ?_, .inl rfl⟩
    simp only [fitsLoop, Bool.and_eq_true, decide_eq_true_eq] at hfits
    exact hfits.2
  | cons ch rest ih =>
    by_cases hdot : ch = dot
    · subst hdot
      obtain ⟨hlen, hall, hbase⟩ := of_fitsLoop_ext (Nat.zero_le 3) hfits
      exact ⟨[], dot :: rest, rfl, hle, nofun, hbase, .inr ⟨rest, rfl, by omega, hall⟩⟩
    · obtain ⟨hallowed, ⟨-, hroom, hrest⟩ | ⟨hin, -⟩⟩ := fitsLoop_cons hdot hfits
      · obtain ⟨front, tail, rfl, hlen, hall, -, htail⟩ := ih hroom hrest
        refine ⟨ch :: front, tail, rfl, by rw [length_cons]; omega, ?_, by simp, htail⟩
        exact forall_mem_cons.mpr ⟨hallowed, hall⟩
      · simp at hin

/-- The names that are short names up to case. -/
lemma nameFitsShortExact_iff :
    nameFitsShortExact name = true ↔ ∃ base tail, NameParts name base tail := by
  unfold nameFitsShortExact
  constructor
  · intro hfits
    split_ifs at hfits
    obtain ⟨front, tail, rfl, hle, hall, hne, htail⟩ := of_fitsLoop_base (Nat.zero_le 8) hfits
    exact ⟨front, tail, rfl, by simpa using hne, by simpa using hle, hall, htail⟩
  rintro ⟨base, tail, hparts⟩
  obtain ⟨first, others, hbase⟩ := exists_cons_of_ne_nil hparts.base_ne_nil
  have hfirst : shortNameCharAllowed first = true := hparts.base_allowed first (by simp [hbase])
  have hspace : ¬ (name = [] ∨ isSpaceOrDot name = true) := by
    have hne : first ≠ blank ∧ first ≠ dot := by
      refine ⟨fun h => ?_, ne_dot_of_allowed hfirst⟩
      subst h
      exact absurd hfirst (by decide)
    simp [hparts.name_eq, hbase, isSpaceOrDot, hne.1, hne.2]
  rw [if_neg hspace, hparts.name_eq,
    fitsLoop_base hparts.base_allowed (by simpa using hparts.base_le)]
  have hsaw : (!base.isEmpty) = true := by simp [hbase]
  rw [hsaw]
  rcases hparts.tail_eq with rfl | ⟨ext, rfl, hle, hall⟩
  · simp [fitsLoop, hbase]
  · exact fitsLoop_ext hall (by simpa using hle) (by simp [hbase])

/-! ## Names against short names -/

lemma map_sanitize_short (text : Name) : ∀ ch ∈ text.map sanitizeShortChar, ShortChar ch := by
  intro ch hch
  obtain ⟨original, -, rfl⟩ := mem_map.mp hch
  exact shortChar_sanitize original

lemma map_toLower_sanitize {text : Name} (hall : ∀ ch ∈ text, shortNameCharAllowed ch = true) :
    (text.map sanitizeShortChar).map toLower = text.map toLower := by
  rw [map_map]
  exact map_congr_left fun ch hch => sanitize_of_allowed (hall ch hch)

/-- Normalizing keeps base and extension apart. -/
lemma NameParts.normalize {base tail : Name} (hparts : NameParts name base tail) :
    ShortParts (normalizeName83 name) (base.map sanitizeShortChar)
      ((tail.drop 1).map sanitizeShortChar) where
  raw_eq := by
    have hbase : normalizeLoop false [] [] (base ++ tail) =
        normalizeLoop false ([] ++ base.map sanitizeShortChar) [] tail :=
      normalizeLoop_base (fun ch hch => ne_dot_of_allowed (hparts.base_allowed ch hch))
        (by simpa using hparts.base_le) [] tail
    rw [normalizeName83, hparts.name_eq, hbase]
    rcases hparts.tail_eq with rfl | ⟨ext, rfl, hle, hall⟩
    · rfl
    · rw [normalizeLoop, normalizeLoop_ext (fun ch hch => ne_dot_of_allowed (hall ch hch)) _
        (by simpa using hle)]
      rfl
  base_ne_nil := by simpa using hparts.base_ne_nil
  base_le := by simpa using hparts.base_le
  ext_le := by
    rcases hparts.tail_eq with rfl | ⟨ext, rfl, hle, -⟩
    · simp
    · simpa using hle
  base_short := map_sanitize_short base
  ext_short := map_sanitize_short (tail.drop 1)

lemma getLast?_ne_dot {text : Name} (hall : ∀ ch ∈ text, shortNameCharAllowed ch = true) :
    text.getLast? ≠ some dot := fun hlast =>
  ne_dot_of_allowed (hall dot (mem_of_getLast? hlast)) rfl

/-- A name that fits reads back from its short name unless it ends in a dot: the dot
before an empty extension is not stored. -/
lemma sameName_format_normalize (hfits : nameFitsShortExact name = true) :
    sameName name (formatName83 (normalizeName83 name)) = true ↔ name.getLast? ≠ some dot := by
  obtain ⟨base, tail, hparts⟩ := nameFitsShortExact_iff.mp hfits
  rw [hparts.normalize.format, sameName, decide_eq_true_eq, hparts.name_eq]
  have hbase := map_toLower_sanitize hparts.base_allowed
  rcases hparts.tail_eq with rfl | ⟨ext, rfl, -, hall⟩
  · simpa [hbase] using getLast?_ne_dot hparts.base_allowed
  rcases ext with _ | ⟨ch, ext⟩
  · simp [hbase]
  have hext := map_toLower_sanitize hall
  refine iff_of_true ?_ ?_
  · rw [drop_succ_cons, drop_zero, if_neg (by simp), map_append, map_append,
      hbase, @map_cons _ _ toLower dot, @map_cons _ _ toLower dot, hext]
  · simpa [getLast?_cons] using getLast?_ne_dot hall

lemma of_map_toLower_eq {short : List UInt8} (hshort : ∀ ch ∈ short, ShortChar ch)
    (heq : text.map toLower = short.map toLower) :
    (∀ ch ∈ text, shortNameCharAllowed ch = true) ∧ text.map sanitizeShortChar = short := by
  induction text generalizing short with
  | nil =>
    rw [map_nil, eq_comm, map_eq_nil_iff] at heq
    exact ⟨nofun, heq.symm⟩
  | cons ch text ih =>
    rcases short with _ | ⟨first, short⟩
    · simp at heq
    rw [forall_mem_cons] at hshort
    rw [map_cons, map_cons, List.cons.injEq] at heq
    obtain ⟨hallowed, hsanitize⟩ := sanitize_of_toLower hshort.1 heq.1
    obtain ⟨hall, hmap⟩ := ih hshort.2 heq.2
    exact ⟨forall_mem_cons.mpr ⟨hallowed, hall⟩, by rw [map_cons, hsanitize, hmap]⟩

/-- A name that a short name answers to fits, and is stored as that short name. -/
lemma normalize_of_sameName_format {raw : List UInt8} (hparts : ShortParts raw base ext)
    (hsame : sameName name (formatName83 raw) = true) :
    nameFitsShortExact name = true ∧ normalizeName83 name = raw := by
  rw [hparts.format, sameName, decide_eq_true_eq] at hsame
  obtain ⟨front, tail, hname, hbase, hext⟩ : ∃ front tail, NameParts name front tail ∧
      front.map sanitizeShortChar = base ∧ (tail.drop 1).map sanitizeShortChar = ext := by
    by_cases hnil : ext = []
    · rw [if_pos hnil] at hsame
      obtain ⟨hall, hmap⟩ := of_map_toLower_eq hparts.base_short hsame
      have hne : name ≠ [] := fun h => hparts.base_ne_nil (by simpa [h] using hmap.symm)
      refine ⟨name, [], ⟨by simp, hne, ?_, hall, .inl rfl⟩, hmap, by simp [hnil]⟩
      rw [← length_map (f := sanitizeShortChar), hmap]
      exact hparts.base_le
    · rw [if_neg hnil, map_append] at hsame
      obtain ⟨front, tail, rfl, hfront, htail⟩ := map_eq_append_iff.mp hsame
      obtain ⟨ch, rest, rfl, hch, hrest⟩ := map_eq_cons_iff.mp htail
      obtain rfl : ch = dot := toLower_eq_dot.mp (hch.trans (by decide))
      obtain ⟨hall, hmap⟩ := of_map_toLower_eq hparts.base_short hfront
      obtain ⟨hallExt, hmapExt⟩ := of_map_toLower_eq hparts.ext_short hrest
      have hne : front ≠ [] := fun h => hparts.base_ne_nil (by simpa [h] using hmap.symm)
      refine ⟨front, dot :: rest,
        ⟨rfl, hne, ?_, hall, .inr ⟨rest, rfl, ?_, hallExt⟩⟩, hmap, hmapExt⟩
      · rw [← length_map (f := sanitizeShortChar), hmap]
        exact hparts.base_le
      · rw [← length_map (f := sanitizeShortChar), hmapExt]
        exact hparts.ext_le
  refine ⟨nameFitsShortExact_iff.mpr ⟨front, tail, hname⟩, ?_⟩
  rw [hname.normalize.raw_eq, hbase, hext, hparts.raw_eq]

lemma sameName_refl (name : Name) : sameName name name = true := decide_eq_true rfl

lemma sameName_comm (lhs rhs : Name) : sameName lhs rhs = sameName rhs lhs := by
  rw [sameName, sameName, decide_eq_decide]
  exact eq_comm

lemma sameName_trans {first second third : Name} (hfirst : sameName first second = true)
    (hsnd : sameName second third = true) : sameName first third = true :=
  decide_eq_true ((of_decide_eq_true hfirst).trans (of_decide_eq_true hsnd))

/-- Short names that read the same are the same. -/
lemma raw_eq_of_sameName {raw raw' base' ext' : List UInt8} (hparts : ShortParts raw base ext)
    (hparts' : ShortParts raw' base' ext')
    (hsame : sameName (formatName83 raw) (formatName83 raw') = true) : raw = raw' := by
  rw [← (normalize_of_sameName_format hparts (sameName_refl _)).2]
  exact (normalize_of_sameName_format hparts' hsame).2

/-! ## Aliases are short names -/

lemma aliasChars_short (room : Nat) (text : Name) : ∀ ch ∈ aliasChars room text, ShortChar ch :=
  fun ch hch => map_sanitize_short text ch (mem_of_mem_filter (mem_of_mem_take hch))

lemma length_aliasChars_le (room : Nat) (text : Name) : (aliasChars room text).length ≤ room :=
  length_take_le _ _

lemma shortChar_digit (value : Nat) : ShortChar (UInt8.ofNat (0x30 + value % 10)) := by
  have hall : ∀ d < 10, ShortChar (UInt8.ofNat (0x30 + d)) := by decide
  exact hall _ (Nat.mod_lt value (by decide))

lemma serialText_short (room value : Nat) : ∀ ch ∈ serialText room value, ShortChar ch := by
  induction room generalizing value with
  | zero => nofun
  | succ room ih =>
    rw [serialText, forall_mem_cons]
    refine ⟨shortChar_digit value, ?_⟩
    split
    · nofun
    · exact ih _

/-- Whatever the name and the serial number, an alias is a short name. -/
lemma exists_shortParts_alias (name : Name) (serial : Nat) :
    ∃ base ext, ShortParts (makeShortAlias name serial) base ext := by
  unfold makeShortAlias
  dsimp only
  split
  next hnormal =>
    obtain ⟨base, tail, hparts⟩ := nameFitsShortExact_iff.mp hnormal.2
    exact ⟨_, _, hparts.normalize⟩
  set front := if aliasChars 8 (splitLastDot name).1 = [] then [underscore]
    else aliasChars 8 (splitLastDot name).1 with hfront
  set digits := serialText 8 serial
  set start := front.take (8 - (digits.length + 1))
  have hstart : start.length ≤ 7 := (length_take_le _ _).trans (by omega)
  have hfrontShort : ∀ ch ∈ front, ShortChar ch := by
    rw [hfront]
    split
    · simp only [mem_singleton, forall_eq]
      decide
    · exact aliasChars_short 8 _
  refine ⟨_, _, rfl, ?_, ?_, length_aliasChars_le 3 _, ?_, aliasChars_short 3 _⟩
  · simp
  · have hcut := length_take_le (8 - (start.length + 1)) digits.reverse
    rw [length_append, length_cons]
    omega
  · intro ch hch
    rcases mem_append.mp hch with hch | hch
    · exact hfrontShort ch (mem_of_mem_take hch)
    · rcases mem_cons.mp hch with rfl | hch
      · decide
      · exact serialText_short 8 serial ch (mem_reverse.mp (mem_of_mem_take hch))

end NexOS.Fat32
