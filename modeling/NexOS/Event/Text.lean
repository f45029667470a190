import Mathlib

/-! # Text buffers

The kernel formats the text of its event files piece by piece into a buffer of fixed
size. A piece that does not fit is cut. The last place of the buffer is for the
terminating zero.
-/

namespace NexOS.Event

open List

/-! ## Numbers and names as text -/

/-- The last digits of a number, at most `fuel` of them. -/
def digitsOf : Nat → Nat → List Char
  | 0, _ => []
  | fuel + 1, value =>
    (if value / 10 = 0 then [] else digitsOf fuel (value / 10)) ++ [Char.ofNat (48 + value % 10)]

/-- A number of 32 bits in decimal. -/
def u32Text (value : Nat) : List Char := digitsOf 10 (value % 2 ^ 32)

/-- A signed number in decimal. -/
def i32Text (value : Int) : List Char :=
  if value < 0 then '-' :: u32Text (-value).toNat else u32Text value.toNat

/-- `vfs_append_hex_u32_text`. -/
def hexText (value : Nat) : List Char := "0x".toList ++ (List.range 8).map fun i =>
    "0123456789ABCDEF".toList.getD (value / 16 ^ (7 - i) % 16) '0'

/-- A flag as a digit. -/
def boolText (value : Bool) : List Char := if value then ['1'] else ['0']

/-- `vfs_append_keyboard_ascii_text`, of a character code. -/
def keyboardAsciiText (ascii : Nat) : List Char :=
  if ascii = 0 then "none".toList
  else if ascii = 10 then "\\n".toList
  else if ascii = 9 then "\\t".toList
  else if ascii = 8 then "\\b".toList
  else if ascii = 32 then "space".toList
  else if ascii < 32 ∨ 127 ≤ ascii then "control".toList
  else [Char.ofNat ascii]

/-- The string ends at its first character. -/
def isEmptyText (text : List Char) : Bool := text.headD '\x00' = '\x00'

/-- `vfs_copy_event_text` into a field of `size` characters. -/
def copyEventText (size : Nat) (src : List Char) : List Char :=
  (src.takeWhile (· ≠ '\x00')).take (size - 1)

/-! ## Appending -/

/-- Text is cut at the end of the buffer. -/
def appendText (size : Nat) (dst text : List Char) : List Char := (dst ++ text).take (size - 1)

/-- Characters with a backslash in JSON. -/
def Escaped (c : Char) : Prop := c = '"' ∨ c = '\\'

instance (c : Char) : Decidable (Escaped c) := inferInstanceAs (Decidable (_ ∨ _))

/-- The loop of `vfs_append_json_string`. It leaves room for the closing quote. -/
def appendJsonChars (size : Nat) : List Char → List Char → List Char
  | dst, [] => dst
  | dst, c :: rest =>
    if dst.length < size - 2 then
      if Escaped c then
        if size - 3 ≤ dst.length then dst
        else appendJsonChars size (dst ++ ['\\', c]) rest
      else appendJsonChars size (dst ++ [c]) rest
    else dst

/-- `vfs_append_json_string`. -/
def appendJson (size : Nat) (dst text : List Char) : List Char :=
  appendText size (appendJsonChars size (appendText size dst ['"']) text) ['"']

/-- One append of a format function. -/
inductive Piece where
  | text (chars : List Char)
  | json (chars : List Char)

def jsonChar (c : Char) : List Char := if Escaped c then ['\\', c] else [c]

/-- A piece in full. -/
def Piece.render : Piece → List Char
  | .text chars => chars
  | .json chars => '"' :: (chars.flatMap jsonChar ++ ['"'])

/-- A piece is appended as far as there is room. -/
def append (size : Nat) (dst : List Char) : Piece → List Char
  | .text chars => appendText size dst chars
  | .json chars => appendJson size dst chars

def appendAll (size : Nat) (dst : List Char) (pieces : List Piece) : List Char :=
  pieces.foldl (append size) dst

def renderAll (pieces : List Piece) : List Char := pieces.flatMap Piece.render

/-! ## Pieces that fit -/

variable {size : Nat} {dst text : List Char}

lemma appendText_eq (hfits : dst.length + text.length < size) :
    appendText size dst text = dst ++ text := by
  refine take_of_length_le ?_
  rw [length_append]
  omega

lemma length_appendText_lt (hsize : 0 < size) : (appendText size dst text).length < size := by
  have hle := length_take_le (size - 1) (dst ++ text)
  unfold appendText
  omega

/-- What is appended to a text in the buffer is a part of the text to append. -/
lemma exists_appendText (hdst : dst.length < size) :
    ∃ tail, tail <+: text ∧ appendText size dst text = dst ++ tail := by
  refine ⟨text.take (size - 1 - dst.length), take_prefix _ _, ?_⟩
  unfold appendText
  rw [take_append, take_of_length_le (by omega)]

lemma length_digitsOf_le (fuel value : Nat) : (digitsOf fuel value).length ≤ fuel := by
  induction fuel generalizing value with
  | zero => exact Nat.le_refl 0
  | succ fuel ih =>
    rw [digitsOf, length_append]
    split
    · exact Nat.le_add_left 1 fuel
    · exact Nat.succ_le_succ (ih _)

lemma length_u32Text_le (value : Nat) : (u32Text value).length ≤ 10 := length_digitsOf_le 10 _

lemma length_jsonChar_pos (c : Char) : 0 < (jsonChar c).length := by
  unfold jsonChar
  split
  · exact Nat.two_pos
  · exact Nat.one_pos

lemma appendJsonChars_eq (hfits : dst.length + (text.flatMap jsonChar).length + 1 < size) :
    appendJsonChars size dst text = dst ++ text.flatMap jsonChar := by
  induction text generalizing dst with
  | nil => rw [appendJsonChars, flatMap_nil, append_nil]
  | cons c rest ih =>
    rw [flatMap_cons, length_append] at hfits
    have hpos := length_jsonChar_pos c
    have hnext : appendJsonChars size (dst ++ jsonChar c) rest =
        dst ++ (c :: rest).flatMap jsonChar := by
      rw [ih, flatMap_cons, append_assoc]
      rw [length_append]
      omega
    unfold appendJsonChars
    rw [if_pos (by omega)]
    by_cases hescaped : Escaped c
    · rw [jsonChar, if_pos hescaped] at hfits hnext
      simp only [length_cons] at hfits
      rw [if_pos hescaped, if_neg (by omega), hnext]
    · rw [jsonChar, if_neg hescaped] at hnext
      rw [if_neg hescaped, hnext]

lemma append_eq {piece : Piece} (hfits : dst.length + piece.render.length < size) :
    append size dst piece = dst ++ piece.render := by
  cases piece with
  | text chars => exact appendText_eq hfits
  | json chars =>
    simp only [Piece.render, length_cons, length_append] at hfits
    have hopen : appendText size dst ['"'] = dst ++ ['"'] := by
      refine appendText_eq ?_
      simp only [length_cons, length_nil]
      omega
    have hchars : appendJsonChars size (dst ++ ['"']) chars =
        dst ++ ['"'] ++ chars.flatMap jsonChar := by
      refine appendJsonChars_eq ?_
      simp only [length_append, length_cons, length_nil]
      omega
    have hclose : appendText size (dst ++ ['"'] ++ chars.flatMap jsonChar) ['"'] =
        dst ++ ['"'] ++ chars.flatMap jsonChar ++ ['"'] := by
      refine appendText_eq ?_
      simp only [length_append, length_cons, length_nil]
      omega
    change appendText size (appendJsonChars size (appendText size dst ['"']) chars) ['"'] = _
    rw [hopen, hchars, hclose]
    simp [Piece.render]

lemma appendAll_eq {pieces : List Piece} (hfits : dst.length + (renderAll pieces).length < size) :
    appendAll size dst pieces = dst ++ renderAll pieces := by
  induction pieces generalizing dst with
  | nil => exact (append_nil dst).symm
  | cons piece rest ih =>
    unfold renderAll at hfits ih ⊢
    rw [flatMap_cons, length_append] at hfits
    rw [appendAll, foldl_cons, append_eq (by omega), ← appendAll, ih, flatMap_cons, append_assoc]
    rw [length_append]
    omega

end NexOS.Event
