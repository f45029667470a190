import NexOS.Lib.Intervals
import NexOS.Lib.LittleEndian

/-! # Byte memory

A memory of bytes with 64-bit addresses, and words of eight bytes in it. An address that
is computed beyond the last one wraps around.
-/

namespace NexOS

open LittleEndian Function List

/-- Addresses have 64 bits. -/
def addressLimit : Nat := 2 ^ 64

/-- A memory of single bytes. -/
abbrev ByteMemory := Nat → UInt8

namespace ByteMemory

/-- A word of eight bytes, low byte first. -/
def load (mem : ByteMemory) (address : Nat) : Nat :=
  decode ((List.range 8).map fun i => mem ((address + i) % addressLimit))

/-- How far a byte lies behind an address, around the end of the memory. -/
def distance (address x : Nat) : Nat := (x + (addressLimit - address % addressLimit)) % addressLimit

/-- A word is written over eight bytes. -/
def store (mem : ByteMemory) (address value : Nat) : ByteMemory := fun x =>
  if x < addressLimit ∧ distance address x < 8 then UInt8.ofNat (value / 256 ^ distance address x)
  else mem x

/-- A row of bytes, one after the other. -/
def storeBytes (mem : ByteMemory) (address : Nat) : List UInt8 → ByteMemory
  | [] => mem
  | byte :: rest =>
    storeBytes (update mem (address % addressLimit) byte) (address + 1) rest

/-- Bytes are copied upwards, one after the other. -/
def copyBytes (mem : ByteMemory) (target source : Nat) : Nat → ByteMemory
  | 0 => mem
  | count + 1 =>
    copyBytes (update mem (target % addressLimit) (mem (source % addressLimit)))
      (target + 1) (source + 1) count

def bytes (mem : ByteMemory) (address count : Nat) : List UInt8 :=
  (List.range count).map fun i => mem ((address + i) % addressLimit)

/-- Only the listed intervals change. -/
def SameOutside (changed : List Interval) (mem mem' : ByteMemory) : Prop :=
  ∀ x, ¬Interval.Covered changed x → mem' x = mem x

variable {mem mem' : ByteMemory} {addr : Nat} {changed kept : List Interval} {x : Nat}

lemma SameOutside.refl (changed : List Interval) (mem : ByteMemory) :
    SameOutside changed mem mem := fun _ _ => rfl

lemma SameOutside.trans {mem'' : ByteMemory}
    (hfirst : SameOutside changed mem mem') (hsnd : SameOutside changed mem' mem'') :
    SameOutside changed mem mem'' := fun x hx => (hsnd x hx).trans (hfirst x hx)

lemma SameOutside.mono {more : List Interval} (hsame : SameOutside changed mem mem')
    (hmore : ∀ x, Interval.Covered changed x → Interval.Covered more x) :
    SameOutside more mem mem' := fun x hx => hsame x fun hcov => hx (hmore x hcov)

/-- The listed intervals do not change. -/
def SameInside (kept : List Interval) (mem mem' : ByteMemory) : Prop :=
  ∀ i ∈ kept, ∀ x, i.Has x → mem' x = mem x

lemma SameInside.trans {mem'' : ByteMemory}
    (hfirst : SameInside kept mem mem') (hsnd : SameInside kept mem' mem'') :
    SameInside kept mem mem'' := fun i hi x hx => (hsnd i hi x hx).trans (hfirst i hi x hx)

/-- Intervals apart from all changes keep their bytes. -/
lemma SameOutside.inside (hsame : SameOutside changed mem mem')
    (hapart : ∀ i ∈ kept, ∀ j ∈ changed, i.Apart j) : SameInside kept mem mem' := by
  intro i hi x hx
  refine hsame x ?_
  rintro ⟨j, hj, hjx⟩
  exact (hapart i hi j hj).not_has hx hjx

lemma SameOutside.inside_one {b : Interval} (hsame : SameOutside [b] mem mem')
    (hapart : ∀ i ∈ kept, i.Apart b) : SameInside kept mem mem' :=
  hsame.inside fun i hi => forall_mem_singleton.mpr (hapart i hi)

lemma distance_lt_iff (haddr : addr + 8 ≤ addressLimit) (hx : x < addressLimit) :
    distance addr x < 8 ↔ addr ≤ x ∧ x < addr + 8 := by
  unfold distance
  rw [Nat.mod_eq_of_lt (show addr < addressLimit by omega)]
  by_cases hle : addr ≤ x
  · rw [show x + (addressLimit - addr) = x - addr + addressLimit by omega,
      Nat.add_mod_right, Nat.mod_eq_of_lt (by omega)]
    omega
  · rw [Nat.mod_eq_of_lt (by omega)]
    omega

lemma distance_eq (hle : addr ≤ x) (hx : x < addressLimit) : distance addr x = x - addr := by
  unfold distance
  rw [Nat.mod_eq_of_lt (show addr < addressLimit by omega),
    show x + (addressLimit - addr) = x - addr + addressLimit by omega,
    Nat.add_mod_right, Nat.mod_eq_of_lt (by omega)]

/-- A store changes eight bytes. -/
lemma store_of_outside (haddr : addr + 8 ≤ addressLimit) (value : Nat)
    (hx : x < addr ∨ addr + 8 ≤ x) : mem.store addr value x = mem x := by
  refine if_neg ?_
  rintro ⟨hlimit, hnear⟩
  rw [distance_lt_iff haddr hlimit] at hnear
  omega

lemma load_congr (hsame : ∀ i < 8, mem' ((addr + i) % addressLimit) =
    mem ((addr + i) % addressLimit)) : mem'.load addr = mem.load addr := by
  unfold load
  congr 1
  exact map_congr_left fun i hi => hsame i (mem_range.mp hi)

lemma encode_eq_map (width value : Nat) : encode width value =
    (List.range width).map fun i => UInt8.ofNat (value / 256 ^ i) := by
  induction width generalizing value with
  | zero => rfl
  | succ width ih =>
    rw [encode, ih, range_succ_eq_map, map_cons, map_map]
    refine congrArg₂ List.cons ?_ (map_congr_left fun i _ => ?_)
    · rw [Nat.pow_zero, Nat.div_one]
    · rw [comp_apply, Nat.pow_succ', Nat.div_div_eq_div_mul]

lemma load_store (mem : ByteMemory) (haddr : addr + 8 ≤ addressLimit) (value : Nat) :
    (mem.store addr value).load addr = value % addressLimit := by
  have hbytes : (List.range 8).map (fun i => mem.store addr value ((addr + i) % addressLimit)) =
      encode 8 value := by
    rw [encode_eq_map]
    refine map_congr_left fun i hi => ?_
    rw [mem_range] at hi
    have hx : addr + i < addressLimit := by omega
    rw [Nat.mod_eq_of_lt hx]
    unfold store
    rw [if_pos ⟨hx, (distance_lt_iff haddr hx).mpr (by omega)⟩,
      distance_eq (Nat.le_add_right addr i) hx, Nat.add_sub_cancel_left]
  unfold load
  rw [hbytes, decode_encode]
  rfl

lemma load_store_of_apart {other : Nat} (haddr : addr + 8 ≤ addressLimit) (value : Nat)
    (hother : other + 8 ≤ addressLimit) (hapart : other + 8 ≤ addr ∨ addr + 8 ≤ other) :
    (mem.store addr value).load other = mem.load other := by
  refine load_congr fun i hi => ?_
  rw [Nat.mod_eq_of_lt (by omega)]
  exact store_of_outside haddr value (by omega)

/-! ## Rows of bytes -/

lemma storeBytes_of_outside {data : List UInt8} (hend : addr + data.length ≤ addressLimit)
    (hx : x < addr ∨ addr + data.length ≤ x) : mem.storeBytes addr data x = mem x := by
  induction data generalizing mem addr with
  | nil => rfl
  | cons byte rest ih =>
    rw [length_cons] at hend hx
    rw [storeBytes, ih (by omega) (by omega), Nat.mod_eq_of_lt (by omega), update_of_ne (by omega)]

lemma storeBytes_inside {data : List UInt8} (hend : addr + data.length ≤ addressLimit) {i : Nat}
    (hi : i < data.length) : mem.storeBytes addr data (addr + i) = data[i] := by
  induction data generalizing mem addr i with
  | nil => exact absurd hi (Nat.not_lt_zero i)
  | cons byte rest ih =>
    rw [length_cons] at hend hi
    cases i with
    | zero =>
      rw [storeBytes, storeBytes_of_outside (by omega) (by omega), Nat.add_zero,
        Nat.mod_eq_of_lt (by omega), update_self, getElem_cons_zero]
    | succ i =>
      rw [storeBytes, show addr + (i + 1) = addr + 1 + i by omega, ih (by omega) (by omega),
        getElem_cons_succ]

lemma copyBytes_of_outside {target source count : Nat} (hend : target + count ≤ addressLimit)
    (hx : x < target ∨ target + count ≤ x) :
    mem.copyBytes target source count x = mem x := by
  induction count generalizing mem target source with
  | zero => rfl
  | succ count ih =>
    rw [copyBytes, ih (by omega) (by omega), Nat.mod_eq_of_lt (by omega), update_of_ne (by omega)]

/-- A copy to a range apart from its source. -/
lemma copyBytes_inside {target source count : Nat} (hend : target + count ≤ addressLimit)
    (hsource : source + count ≤ addressLimit)
    (hapart : source + count ≤ target ∨ target + count ≤ source) {i : Nat} (hi : i < count) :
    mem.copyBytes target source count (target + i) = mem (source + i) := by
  induction count generalizing mem target source i with
  | zero => exact absurd hi (Nat.not_lt_zero i)
  | succ count ih =>
    have htgt : target % addressLimit = target := Nat.mod_eq_of_lt (by omega)
    have hfrom : source % addressLimit = source := Nat.mod_eq_of_lt (by omega)
    rw [copyBytes, htgt, hfrom]
    cases i with
    | zero =>
      rw [copyBytes_of_outside (by omega) (by omega), Nat.add_zero, update_self, Nat.add_zero]
    | succ i =>
      rw [show target + (i + 1) = target + 1 + i by omega, ih (by omega) (by omega) (by omega)
        (by omega), update_of_ne (by omega), show source + 1 + i = source + (i + 1) by omega]

end ByteMemory

end NexOS
