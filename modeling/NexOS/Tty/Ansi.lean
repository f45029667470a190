import Mathlib

/-! # Colour sequences of a terminal

A terminal interprets the bytes that are written to it: it joins the bytes of a
character, draws text, and applies `ESC [ … m` to its colours. Parameter `0`
resets the parser together with the colours, so it ends its sequence.
-/

namespace NexOS

open List

namespace Tty

/-- The colour of new text, background over foreground, and whether it is in use. -/
structure Colours where
  color : UInt8
  bold : Bool
  active : Bool
  deriving DecidableEq

/-- The order of the colours on the screen. -/
def palette (index : ℕ) (bright : Bool) : UInt8 :=
  [0, 4, 2, 6, 1, 5, 3, 7].getD (index % 8) 0 + if bright then 8 else 0

namespace Colours

variable (text : UInt8) (c : Colours)

/-- The colours are used if they differ from the text colour or are bold. -/
def refresh : Colours := { c with active := c.color != text || c.bold }

def reset : Colours := refresh text ⟨text, false, false⟩

def setFg (fg : UInt8) : Colours :=
  refresh text { c with color := (c.color &&& 0xf0) ||| (fg &&& 0x0f) }

def setBg (bg : UInt8) : Colours :=
  refresh text { c with color := (c.color &&& 0x0f) ||| (bg &&& 0x0f).shiftLeft 4 }

/-- What one parameter does to the colours. -/
def sgr (param : ℕ) : Colours :=
  if param = 0 then reset text
  else if param = 1 then
    refresh text ⟨if c.color &&& 0x0f < 8 then c.color + 8 else c.color, true, c.active⟩
  else if param = 22 then
    refresh text ⟨if 8 ≤ c.color &&& 0x0f then c.color - 8 else c.color, false, c.active⟩
  else if 30 ≤ param ∧ param ≤ 37 then setFg text c (palette (param - 30) c.bold)
  else if param = 39 then setFg text c (text &&& 0x0f)
  else if 40 ≤ param ∧ param ≤ 47 then setBg text c (palette (param - 40) false)
  else if param = 49 then setBg text c (text >>> 4 &&& 0x0f)
  else if 90 ≤ param ∧ param ≤ 97 then setFg text c (palette (param - 90) true)
  else if 100 ≤ param ∧ param ≤ 107 then setBg text c (palette (param - 100) true)
  else c

end Colours

/-- Where the parser is: outside a sequence, after `ESC`, or in a sequence with the
parameters so far and the one that is being read. -/
inductive Parser
  | none
  | esc
  | csi (params : List UInt16) (current : Option UInt16)
  deriving DecidableEq

/-- The parameters read so far. -/
def Parser.params : Parser → List UInt16
  | .csi params _ => params
  | _ => []

/-- A character for the console, with its colour as a function of the colour of
the write, or a sequence that moves the cursor or clears. -/
inductive Draw
  | codepoint (value : ℕ) (color : UInt8 → UInt8)
  | control (final : UInt8) (params : List UInt16) (color : UInt8)

end Tty

/-- The output side of a terminal; `pending` is the start of a character of
`expected` bytes. -/
structure Tty where
  text : UInt8
  colours : Tty.Colours
  parser : Tty.Parser
  pending : List UInt8
  expected : ℕ
  drawn : List Tty.Draw

namespace Tty

/-- The most parameters that a sequence has. -/
def paramMax : ℕ := 4

section

variable (t : Tty)

def resetParser : Tty := { t with parser := .none }

def resetOutput : Tty := { t with colours := .reset t.text }.resetParser

/-- A parameter of a sequence is carried out. -/
def applySgr (param : UInt16) : Tty :=
  if param = 0 then t.resetOutput else { t with colours := t.colours.sgr t.text param.toNat }

/-- The loop over the parameters, which compares with their number each time. -/
def applySgrs : ℕ → ℕ → Tty → Tty
  | 0, _, t => t
  | left + 1, i, t => match t.parser.params[i]? with
    | some param => applySgrs left (i + 1) (t.applySgr param)
    | none => t

/-- Only `m`, and `J` when it clears the whole display, change the colours. -/
def applyCsi (final : UInt8) : Tty :=
  let params := t.parser.params
  if final = 0x6d then
    if params = [] then t.applySgr 0 else applySgrs params.length 0 t
  else
    let clearColor := if t.colours.active then t.colours.color else t.text
    let t := { t with drawn := t.drawn ++ [.control final params clearColor] }
    if final = 0x4a ∧ params.head? = some 2 then t.resetOutput else t

/-- A byte in a sequence. The mark `?` is not looked at later. -/
def parseCsi (params : List UInt16) (current : Option UInt16) (ch : UInt8) : Tty :=
  if ch = 0x3f then t
  else if 0x30 ≤ ch ∧ ch ≤ 0x39 then
    if current = none ∧ paramMax ≤ params.length then t.resetParser
    else { t with
      parser := .csi params (some (current.getD 0 * 10 + (ch - 0x30).toUInt16)) }
  else if ch = 0x3b then
    if current = none ∧ paramMax ≤ params.length then t.resetParser
    else { t with parser := .csi (params ++ [current.getD 0]) none }
  else if 0x40 ≤ ch ∧ ch ≤ 0x7e then
    (applyCsi { t with parser := .csi (params ++ current.toList) none } ch).resetParser
  else t.resetParser

/-- A character is drawn in the colours that are set. -/
def put (value : ℕ) : Tty :=
  { t with drawn := t.drawn ++ [.codepoint value fun color =>
      if t.colours.active ∧ color = t.text then t.colours.color else color] }

/-- A byte outside a sequence. -/
def writePlain (ch : UInt8) : Tty :=
  if ch = 0x1b then { t with parser := .esc } else t.put ch.toNat

/-- A byte, inside a sequence or not. -/
def writeParsedChar (ch : UInt8) : Tty :=
  match t.parser with
  | .none => t.writePlain ch
  | .esc =>
    if ch = 0x5b then { t with parser := .csi [] none }
    else (t.resetParser.put 0x1b).writePlain ch
  | .csi params current => t.parseCsi params current ch

/-- A character that is not ASCII ends a sequence. -/
def writeParsedCodepoint (value : ℕ) : Tty :=
  if value < 0x80 then t.writeParsedChar (.ofNat value) else t.resetParser.put value

end

def isContinuation (ch : UInt8) : Bool := ch &&& 0xc0 == 0x80

/-- How many bytes a character has, the bits of its value in the first one, and
the least value that needs so many. -/
def utf8Lead (first : UInt8) : Option (ℕ × UInt8 × ℕ) :=
  if first < 0x80 then some (1, first, 0)
  else if first &&& 0xe0 = 0xc0 then some (2, first &&& 0x1f, 0x80)
  else if first &&& 0xf0 = 0xe0 then some (3, first &&& 0x0f, 0x800)
  else if first &&& 0xf8 = 0xf0 then some (4, first &&& 0x07, 0x10000)
  else none

/-- The character of a row of bytes. -/
def utf8Decode : List UInt8 → ℕ
  | [] => 0xfffd
  | first :: rest => match utf8Lead first with
    | none => 0xfffd
    | some (needed, bits, minimum) =>
      let more := rest.take (needed - 1)
      let value := more.foldl (fun value ch => value * 64 + (ch &&& 0x3f).toNat) bits.toNat
      if rest.length + 1 < needed ∨ ¬more.all isContinuation ∨ value < minimum ∨
        0x10ffff < value ∨ 0xd800 ≤ value ∧ value ≤ 0xdfff then 0xfffd else value

/-- The pending bytes are over, and `value` is written for them. -/
def flush (t : Tty) (value : ℕ) : Tty :=
  { t.writeParsedCodepoint value with pending := [], expected := 0 }

/-- One byte of `tty_write`, which looks twice at one that ends the pending bytes. -/
def writeByte (t : Tty) (ch : UInt8) : Tty :=
  let t := if t.pending ≠ [] ∧ ¬isContinuation ch then t.flush 0xfffd else t
  if t.pending ≠ [] then
    let t := { t with pending := t.pending ++ [ch] }
    if t.pending.length = t.expected then t.flush (utf8Decode t.pending) else t
  else if ch < 0x80 ∨ t.parser ≠ .none then t.writeParsedChar ch
  else match utf8Lead ch with
    | none => t.writeParsedCodepoint 0xfffd
    | some (needed, _) => { t with pending := [ch], expected := needed }

/-- The bytes of a call, one after the other. -/
def write : Tty → List UInt8 → Tty := foldl writeByte

/-! ## Sequences -/

/-- A parameter as it is written, in decimal. -/
structure Param where
  first : Fin 10
  rest : List (Fin 10)

def digitByte (d : Fin 10) : UInt8 := 0x30 + .ofNat d

/-- A parameter as digits. -/
def Param.text (param : Param) : List UInt8 := (param.first :: param.rest).map digitByte

/-- A parameter as a number, of 16 bits. -/
def Param.value (param : Param) : UInt16 :=
  (param.first :: param.rest).foldl (fun value d => value * 10 + .ofNat d) 0

/-- The parameters of a sequence, with semicolons. -/
def paramText (first : Param) : List Param → List UInt8
  | [] => first.text ++ [0x6d]
  | second :: rest => first.text ++ 0x3b :: paramText second rest

/-- The bytes of `ESC [ p₁ ; … ; pₙ m`. -/
def sequence (first : Param) (rest : List Param) : List UInt8 :=
  [0x1b, 0x5b] ++ paramText first rest

/-- No character is pending. -/
def At (t : Tty) (text : UInt8) (c : Colours) (p : Parser) : Prop :=
  t.text = text ∧ t.colours = c ∧ t.parser = p ∧ t.pending = []

variable {t : Tty} {text : UInt8} {c : Colours} {p : Parser} {front : List UInt16}
  {current : Option UInt16} {value : UInt16} {first : Param} {rest : List Param}

/-- Inside a sequence, `ESC` only ends it. -/
def swallows (t : Tty) : Bool := match t.parser with
  | .csi .. => t.pending = []
  | _ => false

lemma write_append (t : Tty) (front back : List UInt8) :
    t.write (front ++ back) = (t.write front).write back := foldl_append ..

lemma write_cons (t : Tty) (ch : UInt8) (data : List UInt8) :
    t.write (ch :: data) = (t.writeByte ch).write data := rfl

lemma at_escape (t : Tty) (h : t.swallows = false) :
    (t.write [0x1b, 0x5b]).At t.text t.colours (.csi [] none) := by
  obtain ⟨text, c, parser, pending, expected, drawn⟩ := t
  cases pending <;> cases parser <;> simp_all [write, writeByte, writeParsedChar, writePlain, put,
    At, swallows, flush, writeParsedCodepoint, resetParser,
    show isContinuation 0x1b = false from rfl]

lemma At.parse (h : t.At text c (.csi front current)) {ch : UInt8} (hch : ch < 0x80) :
    t.writeByte ch = t.parseCsi front current ch := by
  obtain ⟨-, -, hparser, hpend⟩ := h
  simp [writeByte, writeParsedChar, hpend, hch, hparser]

lemma At.digit (h : t.At text c (.csi front current)) (hlen : front.length < paramMax)
    (d : Fin 10) : (t.writeByte (digitByte d)).At text c
      (.csi front (some (current.getD 0 * 10 + .ofNat d))) := by
  have hdigit : ∀ d, digitByte d < 0x80 ∧ digitByte d ≠ 0x3f ∧
      (0x30 ≤ digitByte d ∧ digitByte d ≤ 0x39) ∧
      (digitByte d - 0x30).toUInt16 = .ofNat d := by decide
  obtain ⟨hch, hquery, hrange, hvalue⟩ := hdigit d
  rw [h.parse hch]
  obtain ⟨rfl, rfl, hparser, hpend⟩ := h
  simp [parseCsi, At, hquery, hrange, hvalue, hpend, Nat.not_le.mpr hlen]

lemma At.digits (digits : List (Fin 10)) (h : t.At text c (.csi front (some value)))
    (hlen : front.length < paramMax) : (t.write (digits.map digitByte)).At text c
      (.csi front (some (digits.foldl (fun value d => value * 10 + .ofNat d) value))) := by
  induction digits generalizing t value with
  | nil => exact h
  | cons d digits ih => exact ih (h.digit hlen d)

lemma At.number (h : t.At text c (.csi front none)) (hlen : front.length < paramMax)
    (param : Param) : (t.write param.text).At text c (.csi front (some param.value)) :=
  (h.digit hlen param.first).digits param.rest hlen

/-- The colours after a sequence, which ends at a parameter `0`. -/
def through (text : UInt8) : Colours → List UInt16 → Colours
  | c, [] => c
  | c, param :: rest =>
    let c := c.sgr text param.toNat
    if param = 0 then c else through text c rest

lemma at_applySgrs (rest : List UInt16) {front : List UInt16} (h : t.At text c p)
    (hparams : p.params = front ++ rest) :
    (applySgrs rest.length front.length t).resetParser.At text (through text c rest) .none := by
  induction rest generalizing t c front with
  | nil => exact ⟨h.1, h.2.1, rfl, h.2.2.2⟩
  | cons param rest ih =>
    obtain ⟨rfl, rfl, rfl, hpend⟩ := h
    have hget : t.parser.params[front.length]? = some param := by simp [hparams]
    simp only [length_cons, applySgrs, hget, applySgr, through]
    split
    next hzero => cases rest <;> exact ⟨rfl, by rw [hzero]; rfl, rfl, hpend⟩
    · have hrest := @ih { t with colours := t.colours.sgr t.text param.toNat } _
        (front ++ [param]) ⟨rfl, rfl, rfl, hpend⟩ (by simp [hparams])
      rwa [length_append] at hrest

lemma At.params (rest : List Param) (h : t.At text c (.csi front none))
    (hlen : front.length + rest.length < paramMax) : (t.write (paramText first rest)).At text
      (through text c (front ++ (first :: rest).map Param.value)) .none := by
  induction rest generalizing t front first with
  | nil =>
    have hnumber := h.number hlen first
    obtain ⟨htext, hcolours, -, hpend⟩ := id hnumber
    have hloop := @at_applySgrs
      { t.write first.text with parser := .csi (front ++ [first.value]) none } _ _ _
      (front ++ [first.value]) [] ⟨htext, hcolours, rfl, hpend⟩ rfl
    rw [paramText, write_append, write_cons, hnumber.parse (by decide)]
    simpa [parseCsi, applyCsi, Parser.params, write] using hloop
  | cons second rest ih =>
    have hnumber := h.number (by omega) first
    obtain ⟨htext, hcolours, -, hpend⟩ := id hnumber
    rw [paramText, write_append, write_cons, hnumber.parse (by decide)]
    have hrest := @ih { t.write first.text with parser := .csi (front ++ [first.value]) none }
      (front ++ [first.value]) second ⟨htext, hcolours, rfl, hpend⟩ (by simp at hlen ⊢; omega)
    simpa [parseCsi] using hrest

/-- Outside a sequence, other characters of a sequence are text. -/
lemma At.drawn {data : List UInt8} (h : t.At text c .none)
    (hdata : ∀ ch ∈ data, ch ≠ 0x1b ∧ ch < 0x80) : (t.write data).At text c .none := by
  induction data generalizing t with
  | nil => exact h
  | cons ch data ih =>
    obtain ⟨hch, hdata⟩ := forall_mem_cons.mp hdata
    obtain ⟨rfl, rfl, hparser, hpend⟩ := h
    refine ih ?_ hdata
    simp [writeByte, writeParsedChar, writePlain, put, At, hparser, hpend, hch]

lemma mem_paramText : ∀ ch ∈ paramText first rest, ch ≠ 0x1b ∧ ch < 0x80 := by
  have hdigit : ∀ d, digitByte d ≠ 0x1b ∧ digitByte d < 0x80 := by decide
  have htext : ∀ param : Param, ∀ ch ∈ param.text, ch ≠ 0x1b ∧ ch < 0x80 :=
    fun param => forall_mem_map.mpr fun d _ => hdigit d
  induction rest generalizing first with
  | nil => exact forall_mem_append.mpr ⟨htext first, by simp⟩
  | cons second rest ih =>
    exact forall_mem_append.mpr ⟨htext first, forall_mem_cons.mpr ⟨by decide, ih⟩⟩

lemma at_sequence (t : Tty) (first : Param) (hlen : rest.length < paramMax) :
    (t.write (sequence first rest)).At t.text (if t.swallows then t.colours
      else through t.text t.colours ((first :: rest).map Param.value)) .none := by
  rw [sequence, write_append]
  cases hswallows : t.swallows with
  | false => exact (at_escape t hswallows).params rest (by simpa using hlen)
  | true =>
    have hescape : (t.writeByte 0x1b).At t.text t.colours .none := by
      obtain ⟨text, c, parser, pending, expected, drawn⟩ := t
      cases parser <;> simp_all [swallows, writeByte, writeParsedChar, parseCsi, resetParser, At]
    exact @At.drawn _ _ _ (0x5b :: paramText first rest) hescape
      (forall_mem_cons.mpr ⟨by decide, mem_paramText⟩)

/-- The parameters one after the other. -/
def sgrAll (text : UInt8) (c : Colours) (params : List UInt16) : Colours :=
  params.foldl (fun c param => c.sgr text param.toNat) c

lemma At.separate (params : List Param) (h : t.At text c .none) :
    (t.write (params.flatMap (sequence · []))).colours =
      sgrAll text c (params.map Param.value) := by
  induction params generalizing t c with
  | nil => exact h.2.1
  | cons param params ih =>
    have hfirst := @at_sequence [] t param (by decide)
    obtain ⟨rfl, rfl, hparser, -⟩ := h
    rw [if_neg (by simp [swallows, hparser])] at hfirst
    rw [flatMap_cons, write_append, ih hfirst]
    simp [through, sgrAll]

lemma through_eq_iff (text : UInt8) (c : Colours) (params : List UInt16) :
    through text c params = sgrAll text c params ↔
      sgrAll text (.reset text) (params.dropWhile (· ≠ 0)) = .reset text := by
  induction params generalizing c with
  | nil => simp [through, sgrAll]
  | cons param params ih =>
    by_cases h : param = 0
    · simp [h, through, sgrAll, Colours.sgr, eq_comm]
    · simpa [h, through, sgrAll] using ih (c.sgr text param.toNat)

/-- The parameters after the first `0` leave the reset colours; inside a sequence,
where the first one is lost, the other parameters leave the colours. -/
def Composes (t : Tty) (first : Param) (rest : List Param) : Prop :=
  if t.swallows then sgrAll t.text t.colours (rest.map Param.value) = t.colours
  else sgrAll t.text (.reset t.text) (((first :: rest).map Param.value).dropWhile (· ≠ 0)) =
    .reset t.text

/-- One sequence gives the same colours as one sequence for each parameter, in
any division into writes. -/
def SameColours (t : Tty) (first : Param) (rest : List Param) : Prop :=
  ∀ whole parts : List (List UInt8), whole.flatten = sequence first rest →
    parts.flatten = (first :: rest).flatMap (sequence · []) →
    (whole.foldl write t).colours = (parts.foldl write t).colours

/-- One sequence gives the colours of one sequence for each parameter just under `Composes`. -/
theorem colours_compose_iff (t : Tty) (first : Param) (rest : List Param)
    (hlen : rest.length < paramMax) : t.SameColours first rest ↔ t.Composes first rest := by
  have hcut : ∀ calls : List (List UInt8), calls.foldl write t = t.write calls.flatten :=
    fun calls => foldl_flatten.symm
  have hiff : (t.write (sequence first rest)).colours =
      (t.write ((first :: rest).flatMap (sequence · []))).colours ↔ t.Composes first rest := by
    rw [flatMap_cons, write_append, (at_sequence t first hlen).2.1,
      (@at_sequence [] t first (by decide)).separate rest, Composes]
    split
    · exact eq_comm
    · rw [← through_eq_iff t.text t.colours]
      simp [through, sgrAll]
  rw [← hiff]
  constructor
  · intro h
    simpa using h [sequence first rest] [_] (by simp) (by simp)
  · intro h whole parts hwhole hparts
    rw [hcut, hcut, hwhole, hparts, h]

/-- Bold and then red. -/
theorem bold_red_composes : 1 < paramMax ∧
    SameColours ⟨7, ⟨7, false, false⟩, .none, [], 0, []⟩ ⟨1, []⟩ [⟨3, [1]⟩] :=
  ⟨by decide, (colours_compose_iff _ _ _ (by decide)).mpr (by unfold Composes; decide)⟩

/-- After a reset, a colour in the same sequence is lost. -/
theorem color_after_reset : let t : Tty := ⟨7, ⟨7, false, false⟩, .none, [], 0, []⟩
    (t.write (sequence ⟨0, []⟩ [⟨3, [1]⟩])).colours ≠
      ((t.write (sequence ⟨0, []⟩ [])).write (sequence ⟨3, [1]⟩ [])).colours := by
  decide

end Tty

end NexOS
