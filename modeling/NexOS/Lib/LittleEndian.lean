import Mathlib

/-! # Little-endian fields

Numbers of a fixed width in bytes, least significant byte first, and records
that are rows of such numbers without gaps.
-/

namespace LittleEndian

/-- The bytes of a number, low byte first. -/
def encode : Nat → Nat → List UInt8
  | 0, _ => []
  | width + 1, value => UInt8.ofNat value :: encode width (value / 256)

/-- The number of a row of bytes. -/
def decode : List UInt8 → Nat
  | [] => 0
  | byte :: rest => byte.toNat + 256 * decode rest

@[simp] lemma length_encode (width value : Nat) : (encode width value).length = width := by
  induction width generalizing value with
  | zero => rfl
  | succ width ih => simp [encode, ih]

lemma decode_encode (width value : Nat) : decode (encode width value) = value % 256 ^ width := by
  induction width generalizing value with
  | zero => simp [encode, decode, Nat.mod_one]
  | succ width ih =>
    have hbyte : (UInt8.ofNat value).toNat = value % 256 := UInt8.toNat_ofNat'
    rw [encode, decode, ih, hbyte, Nat.pow_succ', Nat.mod_mul]

lemma decode_lt (bytes : List UInt8) : decode bytes < 256 ^ bytes.length := by
  induction bytes with
  | nil => exact Nat.one_pos
  | cons byte rest ih =>
    have hbyte := byte.toNat_lt
    rw [decode, List.length_cons]
    omega

/-- Fields one after the other. -/
def encodeFields : List Nat → List Nat → List UInt8
  | width :: widths, value :: values => encode width value ++ encodeFields widths values
  | _, _ => []

/-- The fields of the given widths. -/
def decodeFields : List Nat → List UInt8 → List Nat
  | [], _ => []
  | width :: widths, bytes => decode (bytes.take width) :: decodeFields widths (bytes.drop width)

lemma length_encodeFields (widths values : List Nat) (hlen : values.length = widths.length) :
    (encodeFields widths values).length = widths.sum := by
  induction widths generalizing values with
  | nil => rfl
  | cons width widths ih =>
    cases values with
    | nil => cases hlen
    | cons value values =>
      rw [encodeFields, List.length_append, length_encode, List.sum_cons,
        ih values (Nat.succ.inj hlen)]

/-- Reading a record back cuts each field to its width. -/
lemma decodeFields_encodeFields (widths values : List Nat) (hlen : values.length = widths.length) :
    decodeFields widths (encodeFields widths values) =
      List.zipWith (fun width value => value % 256 ^ width) widths values := by
  induction widths generalizing values with
  | nil => rfl
  | cons width widths ih =>
    rcases values with _ | ⟨value, values⟩
    · cases hlen
    have hcut := length_encode width value
    rw [encodeFields, decodeFields, List.take_left' hcut, List.drop_left' hcut,
      decode_encode, ih values (Nat.succ.inj hlen), List.zipWith_cons_cons]

end LittleEndian
