import NexOS.Fat32.VolumeChains

/-! # Slots of a directory

The slots of a directory are those of its clusters, one after the other. Writing a slot
at the place of an index changes the slot with that index and nothing else of the
directory, and all other clusters stay as they are. So the calls that create, delete and
update entries do to the slots what they do to a list.
-/

namespace NexOS.Fat32.Geometry

open List Nat ChainTable

variable {g : Geometry} {d d' : Disk} {first : Nat} {cells : List Nat} {slot : Slot}

/-! ## Rows of rows -/

section FlatMap

variable {α β : Type} {f f' : α → List β} {n : Nat} (hlen : ∀ x, (f x).length = n)

include hlen

lemma length_flatMap_const (xs : List α) : (xs.flatMap f).length = xs.length * n := by
  induction xs with
  | nil => simp
  | cons x xs ih =>
    rw [flatMap_cons, length_append, ih, hlen, length_cons, succ_mul, add_comm]

lemma getElem?_flatMap_const {xs : List α} {q r : Nat} {x : α}
    (hx : xs[q]? = some x) (hr : r < n) : (xs.flatMap f)[q * n + r]? = (f x)[r]? := by
  induction xs generalizing q with
  | nil => simp at hx
  | cons head xs ih =>
    rw [flatMap_cons]
    cases q with
    | zero =>
      obtain rfl : head = x := by simpa using hx
      rw [zero_mul, zero_add, getElem?_append_left (by rw [hlen]; exact hr)]
    | succ q =>
      rw [getElem?_append_right (by rw [hlen, succ_mul]; omega), hlen, ← ih (by simpa using hx)]
      congr 1
      rw [succ_mul]
      omega

/-- Changing one item of one row is changing one item of all rows together. -/
lemma flatMap_set {xs : List α} (hnodup : xs.Nodup) {q r : Nat}
    {x : α} (hx : xs[q]? = some x) (hr : r < n) {new : β} (hhere : f' x = (f x).set r new)
    (hother : ∀ y ∈ xs, y ≠ x → f' y = f y) :
    xs.flatMap f' = (xs.flatMap f).set (q * n + r) new := by
  induction xs generalizing q with
  | nil => simp at hx
  | cons head xs ih =>
    obtain ⟨hnotMem, hnodup⟩ := nodup_cons.mp hnodup
    rw [flatMap_cons, flatMap_cons]
    cases q with
    | zero =>
      obtain rfl : head = x := by simpa using hx
      have hrest : xs.flatMap f' = xs.flatMap f := flatMap_congr fun y hy =>
        hother y (mem_cons_of_mem _ hy) fun heq => hnotMem (heq ▸ hy)
      rw [hhere, hrest, zero_mul, zero_add, set_append_left _ _ (by rw [hlen]; exact hr)]
    | succ q =>
      have hne : head ≠ x := by
        rintro rfl
        exact hnotMem (mem_of_getElem? hx)
      rw [hother head mem_cons_self hne, ih hnodup hx fun y hy => hother y (mem_cons_of_mem _ hy),
        set_append_right _ _ (by rw [hlen, succ_mul]; omega), hlen]
      congr 2
      rw [succ_mul]
      omega

end FlatMap

/-! ## One slot -/

/-- Nothing behind the 32 bytes of the slot. -/
def Trimmed (slot : Slot) : Prop := ∀ b, 32 ≤ b → slot b = 0

lemma trimmed_slotAt (d : Disk) (place : Nat × Nat) : Trimmed (slotAt d place) :=
  fun _ hb => if_neg (by omega)

lemma trimmed_setDirentCluster (htrim : Trimmed slot) (cluster : Nat) :
    Trimmed (setDirentCluster slot cluster) := by
  intro b hb
  simp (disch := omega) only [setDirentCluster, if_neg, htrim b hb]

lemma trimmed_shortDirent {raw : List UInt8} {attr : UInt8} {cluster : Nat} :
    Trimmed (shortDirent raw attr cluster) := by
  apply trimmed_setDirentCluster
  intro b hb
  simp (disch := omega) only [if_neg]

lemma trimmed_deletedSlot (isEntry : Bool) (htrim : Trimmed slot) :
    Trimmed (deletedSlot isEntry slot) := by
  cases isEntry with
  | true =>
    apply trimmed_setDirentCluster
    intro b hb
    dsimp only
    rw [if_neg (by omega), if_pos (by omega)]
  | false =>
    intro b hb
    rw [deletedSlot, if_neg (by simp), if_neg (by omega)]
    exact htrim b hb

lemma slotsPerCluster_pos : 0 < g.slotsPerCluster := mul_pos (by omega) g.sectors_pos

lemma length_clusterSlots (c : Nat) : (g.clusterSlots d c).length = g.slotsPerCluster := by
  simp [clusterSlots]

variable (hchain : Chain (g.link d) first cells)

include hchain in
lemma length_dirSlots : (g.dirSlots d first).length = cells.length * g.slotsPerCluster := by
  rw [dirSlots_of_chain hchain, length_flatMap_const length_clusterSlots]

lemma link_of_fat_eq (hfat : d'.fat = d.fat) : g.link d' = g.link d := by
  funext c
  rw [link, link, hfat]

lemma slotAt_writeSlot {c i r : Nat} (htrim : Trimmed slot) :
    slotAt (writeSlot d (c, r) slot) (c, i) = if i = r then slot else slotAt d (c, i) := by
  funext b
  simp only [slotAt, writeSlot, Function.update_self]
  by_cases hi : i = r
  · subst hi
    rw [if_pos rfl]
    split
    · rw [if_pos (by omega), Nat.add_sub_cancel_left]
    · rw [htrim b (by omega)]
  · rw [if_neg hi, slotAt]
    by_cases hb : b < 32
    · rw [if_pos hb, if_pos hb, if_neg (by omega)]
    · rw [if_neg hb, if_neg hb]

lemma clusterSlots_writeSlot {c r : Nat} (htrim : Trimmed slot) :
    g.clusterSlots (writeSlot d (c, r) slot) c = (g.clusterSlots d c).set r slot := by
  apply ext_getElem
  · simp [clusterSlots]
  · intro i hi hi'
    simp only [clusterSlots, getElem_map, getElem_range, slotAt_writeSlot htrim,
      getElem_set, eq_comm]

/-- The place that an index stands for. -/
structure PlaceOf (g : Geometry) (disk : Disk) (first : Nat) (cells : List Nat) (index : Nat)
    (place : Nat × Nat) : Prop where
  position : g.rawEntryPosition disk first index = some place
  mem : place.1 ∈ cells
  slot_eq : (g.dirSlots disk first)[index]? = some (slotAt disk place)
  written : ∀ slot, Trimmed slot →
    g.dirSlots (writeSlot disk place slot) first = (g.dirSlots disk first).set index slot

include hchain

lemma exists_placeOf {index : Nat} (hindex : index < (g.dirSlots d first).length) :
    ∃ place, PlaceOf g d first cells index place := by
  have hpos := @slotsPerCluster_pos g
  rw [length_dirSlots hchain] at hindex
  have hq : index / g.slotsPerCluster < cells.length := Nat.div_lt_of_lt_mul (by rwa [mul_comm])
  have hr := mod_lt index hpos
  have hsplit := div_add_mod' index g.slotsPerCluster
  have hcell : cells[index / g.slotsPerCluster]? = some cells[index / g.slotsPerCluster] :=
    getElem?_eq_getElem hq
  refine ⟨(cells[index / g.slotsPerCluster], index % g.slotsPerCluster), ?_, getElem_mem hq, ?_,
    fun slot htrim => ?_⟩
  · rw [rawEntryPosition, dirClusters_of_chain hchain, hcell, Option.map_some]
  · have hget :=
      @getElem?_flatMap_const _ _ (g.clusterSlots d) _ length_clusterSlots _ _ _ _ hcell hr
    rw [hsplit] at hget
    rw [dirSlots_of_chain hchain, hget]
    simp [clusterSlots, hr]
  · have hchain' : Chain (g.link (writeSlot d
        (cells[index / g.slotsPerCluster], index % g.slotsPerCluster) slot)) first cells := hchain
    rw [dirSlots_of_chain hchain, dirSlots_of_chain hchain', flatMap_set length_clusterSlots
      hchain.nodup hcell hr (clusterSlots_writeSlot htrim) fun c _ hne =>
        clusterSlots_congr (Function.update_of_ne hne _ _), hsplit]

lemma rawEntryPosition_eq_none {index : Nat} (hindex : (g.dirSlots d first).length ≤ index) :
    g.rawEntryPosition d first index = none := by
  rw [length_dirSlots hchain] at hindex
  have hq : cells.length ≤ index / g.slotsPerCluster :=
    (le_div_iff_mul_le slotsPerCluster_pos).mpr hindex
  rw [rawEntryPosition, dirClusters_of_chain hchain, getElem?_eq_none hq, Option.map_none]

omit hchain

/-! ## Several slots -/

/-- Only bytes on the clusters are different. -/
structure Rewrites (disk : Disk) (cells : List Nat) (disk' : Disk) : Prop where
  fat_eq : disk'.fat = disk.fat
  data_same : ∀ c, c ∉ cells → disk'.data c = disk.data c

lemma rewrites_refl : Rewrites d cells d := ⟨rfl, fun _ _ => rfl⟩

lemma Rewrites.trans {d'' : Disk} (hfirst : Rewrites d cells d')
    (hsnd : Rewrites d' cells d'') : Rewrites d cells d'' :=
  ⟨hsnd.fat_eq.trans hfirst.fat_eq, fun c hc =>
    (hsnd.data_same c hc).trans (hfirst.data_same c hc)⟩

lemma rewrites_writeSlot {place : Nat × Nat} (hmem : place.1 ∈ cells) (slot : Slot) :
    Rewrites d cells (writeSlot d place slot) := by
  refine ⟨rfl, fun c hc => Function.update_of_ne ?_ _ _⟩
  rintro rfl
  exact hc hmem

lemma Rewrites.chain (hrew : Rewrites d cells d') {other : Nat} {others : List Nat}
    (hchain : Chain (g.link d) other others) : Chain (g.link d') other others := by
  rwa [link_of_fat_eq hrew.fat_eq]

lemma writeSlots_cons {slots : List Slot} {start : Nat}
    (hstart : start < slots.length) (slot : Slot) (rest : List Slot) :
    writeSlots (slots.set start slot) (start + 1) rest = writeSlots slots start (slot :: rest) := by
  have htake : (slots.set start slot).take (start + 1) = slots.take start ++ [slot] := by
    rw [take_add_one, take_set_of_le le_rfl, getElem?_set_self hstart]
    rfl
  have hdrop : (slots.set start slot).drop (start + 1 + rest.length) =
      slots.drop (start + (slot :: rest).length) := by
    rw [drop_set_of_lt (by omega), length_cons]
    congr 1
    omega
  rw [writeSlots, writeSlots, htake, hdrop]
  simp

include hchain

/-- New slots are written to the row of slots that they are meant for. -/
lemma writeSlotsFrom_spec {start : Nat} {new : List Slot}
    (hfits : start + new.length ≤ (g.dirSlots d first).length)
    (htrim : ∀ slot ∈ new, Trimmed slot) :
    Rewrites d cells (g.writeSlotsFrom d first start new) ∧
      g.dirSlots (g.writeSlotsFrom d first start new) first =
        writeSlots (g.dirSlots d first) start new := by
  induction new generalizing d start with
  | nil =>
    refine ⟨rewrites_refl, ?_⟩
    simp [writeSlotsFrom, writeSlots]
  | cons slot rest ih =>
    rw [forall_mem_cons] at htrim
    rw [length_cons] at hfits
    obtain ⟨place, hplace⟩ := exists_placeOf hchain (show start < _ by omega)
    have hwrote := @rewrites_writeSlot d cells place hplace.mem slot
    have hslots := hplace.written slot htrim.1
    obtain ⟨hrew, hrest⟩ := @ih _ (hwrote.chain hchain) (start + 1)
      (by rw [hslots, length_set]; omega) htrim.2
    rw [writeSlotsFrom, hplace.position]
    refine ⟨hwrote.trans hrew, ?_⟩
    rw [hrest, hslots, writeSlots_cons (by omega)]

/-- Deletion marks the slots that it marks in the list. -/
lemma deleteDirents_spec (isEntry : Bool) (index count : Nat) :
    Rewrites d cells (g.deleteDirents d first isEntry index count).2 ∧
      (g.deleteDirents d first isEntry index count).1 =
        (deleteFrom (g.dirSlots d first) isEntry index count).1 ∧
      g.dirSlots (g.deleteDirents d first isEntry index count).2 first =
        (deleteFrom (g.dirSlots d first) isEntry index count).2 := by
  induction count generalizing d isEntry index with
  | zero =>
    rw [deleteDirents, deleteFrom]
    exact ⟨rewrites_refl, rfl, rfl⟩
  | succ count ih =>
    rw [deleteDirents, deleteFrom]
    by_cases hindex : index < (g.dirSlots d first).length
    · obtain ⟨place, hplace⟩ := exists_placeOf hchain hindex
      set slot := deletedSlot isEntry (slotAt d place) with hslot
      have htrim : Trimmed slot := trimmed_deletedSlot isEntry (trimmed_slotAt d place)
      have hwrote := @rewrites_writeSlot d cells place hplace.mem slot
      have hslots : g.dirSlots (writeSlot d place slot) first =
          (g.dirSlots d first).modify index (deletedSlot isEntry) := by
        rw [hplace.written slot htrim, modify_eq_set, hplace.slot_eq]
        rfl
      rw [hplace.position, if_pos hindex]
      cases count with
      | zero => exact ⟨hwrote, rfl, hslots⟩
      | succ count =>
        cases index with
        | zero => exact ⟨hwrote, rfl, hslots⟩
        | succ index =>
          obtain ⟨hrew, hres, hrest⟩ := ih (hwrote.chain hchain) false index
          rw [hslots] at hres hrest
          exact ⟨hwrote.trans hrew, hres, hrest⟩
    · rw [rawEntryPosition_eq_none hchain (by omega), if_neg hindex]
      exact ⟨rewrites_refl, rfl, rfl⟩

end NexOS.Fat32.Geometry
