import Mathlib

/-! # Caches with stamps

A cache is a row of slots and an epoch. Every use of a slot stamps it with the
next epoch; a new entry goes to the first unused slot or, when there is none,
to the slot with the smallest stamp. The same key may sit in several slots, and
an update reaches only the first of them. Coherence therefore allows a slot to
be out of date as long as an earlier slot of the same key is up to date and was
stamped later: it is found first and replaced last. The epoch counts modulo
`limit`; the rules below hold as long as it does not wrap.
-/

namespace StampedCache

open Function

/-- A place of the cache. -/
structure Entry (Key Data : Type*) where
  key : Key
  stamp : Nat
  data : Data
  valid : Bool

/-- A cache with a counter for the uses of its places. -/
@[ext] structure Cache (size : Nat) (Key Data : Type*) where
  entries : Fin size → Entry Key Data
  epoch : Nat

variable {size : Nat} {Key Data : Type*} [DecidableEq Key]

namespace Cache

/-- The place that holds a key. -/
def lookup (c : Cache size Key Data) (key : Key) : Option (Fin size) :=
  (List.finRange size).find? fun i => (c.entries i).valid && decide ((c.entries i).key = key)

/-- A place is used now. -/
def stampWith (c : Cache size Key Data) (limit : Nat) (i : Fin size)
    (entry : Entry Key Data) : Cache size Key Data where
  entries := Function.update c.entries i { entry with stamp := (c.epoch + 1) % limit }
  epoch := (c.epoch + 1) % limit

/-- A lookup that marks the place as used. -/
def get (c : Cache size Key Data) (limit : Nat) (key : Key) : Option Data × Cache size Key Data :=
  match c.lookup key with
  | none => (none, c)
  | some i => (some (c.entries i).data, c.stampWith limit i (c.entries i))

/-- The slot to replace: the first unused one, or else the first with the
smallest stamp below `oldestStamp`. -/
def victimFrom (c : Cache size Key Data) : List (Fin size) → Fin size → Nat → Fin size
  | [], oldest, _ => oldest
  | i :: rest, oldest, oldestStamp =>
    if !(c.entries i).valid then i
    else if (c.entries i).stamp < oldestStamp then
      victimFrom c rest i (c.entries i).stamp
    else victimFrom c rest oldest oldestStamp

variable [NeZero size]
  {c : Cache size Key Data} {truth : Key → Data} {key : Key} {limit : Nat} {i : Fin size}

/-- The place that was not used for longest. -/
def victim (c : Cache size Key Data) (limit : Nat) : Fin size :=
  c.victimFrom (List.finRange size) 0 (limit - 1)

/-- Insert a key, without looking for slots that already hold it. -/
def put (c : Cache size Key Data) (limit : Nat) (key : Key) (data : Data) : Cache size Key Data :=
  c.stampWith limit (c.victim limit) ⟨key, 0, data, true⟩

omit [NeZero size] in
/-- Data under a key that the cache holds. -/
def update (c : Cache size Key Data) (limit : Nat) (key : Key) (data : Data) :
    Cache size Key Data :=
  match c.lookup key with
  | none => c
  | some i => c.stampWith limit i { c.entries i with data := data }

omit [NeZero size] [DecidableEq Key] in
/-- The cache forgets everything. -/
def clear (c : Cache size Key Data) : Cache size Key Data where
  entries i := { c.entries i with valid := false, stamp := 0 }
  epoch := 0

/-! ## Coherence -/

omit [NeZero size] [DecidableEq Key] in
/-- The cache agrees with `truth`, up to slots that an earlier, later stamped
slot of the same key covers. -/
structure Coherent (c : Cache size Key Data) (truth : Key → Data) : Prop where
  stamped : ∀ i, (c.entries i).stamp ≤ c.epoch
  covered : ∀ j, (c.entries j).valid = true → (c.entries j).data ≠ truth (c.entries j).key →
    ∃ i < j, (c.entries i).valid = true ∧ (c.entries i).key = (c.entries j).key ∧
      (c.entries i).data = truth (c.entries j).key ∧ (c.entries j).stamp < (c.entries i).stamp

omit [NeZero size]

lemma lookup_eq_some (hfound : c.lookup key = some i) :
    (c.entries i).valid = true ∧ (c.entries i).key = key ∧
      ∀ j < i, (c.entries j).valid = true → (c.entries j).key ≠ key := by
  obtain ⟨hhere, n, hn, hi, hbefore⟩ := List.find?_eq_some_iff_getElem.mp hfound
  rw [Bool.and_eq_true, decide_eq_true_eq] at hhere
  refine ⟨hhere.1, hhere.2, ?_⟩
  intro j hj hvalid hkey
  rw [List.getElem_finRange] at hi
  have hlt : j.val < n := by
    rw [← hi] at hj
    exact hj
  have hno := hbefore j.val hlt
  simp [hvalid, hkey] at hno

lemma lookup_eq_none (hnone : c.lookup key = none) (i : Fin size)
    (hvalid : (c.entries i).valid = true) : (c.entries i).key ≠ key := by
  have hno := List.find?_eq_none.mp hnone i (List.mem_finRange i)
  simpa [hvalid] using hno

variable (hc : c.Coherent truth)

include hc

/-- What a lookup finds is up to date. -/
lemma Coherent.data_eq (hfound : c.lookup key = some i) : (c.entries i).data = truth key := by
  obtain ⟨hvalid, rfl, hfirst⟩ := lookup_eq_some hfound
  by_contra hne
  obtain ⟨j, hj, hjvalid, hjkey, -⟩ := hc.covered i hvalid hne
  exact hfirst j hj hjvalid hjkey

omit [DecidableEq Key] in
/-- Stamping a slot that is up to date, when every other slot that is not up to
date is covered by it or by a slot that stays. -/
lemma Coherent.stampWith {truth' : Key → Data}
    (hroom : c.epoch + 1 < limit) {entry : Entry Key Data} (hvalid : entry.valid = true)
    (hdata : entry.data = truth' entry.key) (hcov : ∀ j ≠ i, (c.entries j).valid = true →
      (c.entries j).data ≠ truth' (c.entries j).key →
      (i < j ∧ entry.key = (c.entries j).key) ∨
      ∃ k < j, k ≠ i ∧ (c.entries k).valid = true ∧ (c.entries k).key = (c.entries j).key ∧
        (c.entries k).data = truth' (c.entries j).key ∧
        (c.entries j).stamp < (c.entries k).stamp) :
    (c.stampWith limit i entry).Coherent truth' := by
  have hepoch : (c.epoch + 1) % limit = c.epoch + 1 := Nat.mod_eq_of_lt hroom
  refine ⟨?_, ?_⟩
  · intro j
    simp only [Cache.stampWith, hepoch]
    by_cases hj : j = i
    · simp [hj]
    · rw [update_of_ne hj]
      exact Nat.le_succ_of_le (hc.stamped j)
  intro j hjvalid hjdata
  simp only [Cache.stampWith, hepoch] at hjvalid hjdata ⊢
  by_cases hj : j = i
  · subst hj
    simp only [update_self] at hjdata
    exact absurd hdata hjdata
  rw [update_of_ne hj] at hjvalid hjdata ⊢
  rcases hcov j hj hjvalid hjdata with ⟨hlt, hkey⟩ | ⟨k, hlt, hk, hrest⟩
  · refine ⟨i, hlt, ?_⟩
    rw [update_self]
    exact ⟨hvalid, hkey, hkey ▸ hdata, Nat.lt_succ_of_le (hc.stamped j)⟩
  · refine ⟨k, hlt, ?_⟩
    rw [update_of_ne hk]
    exact hrest

lemma Coherent.get (hroom : c.epoch + 1 < limit) (key : Key) :
    (c.get limit key).2.Coherent truth ∧ ∀ data, (c.get limit key).1 = some data →
      data = truth key := by
  unfold Cache.get
  split
  · exact ⟨hc, nofun⟩
  next i hfound =>
    obtain ⟨hvalid, hkey, -⟩ := lookup_eq_some hfound
    have hdata := hc.data_eq hfound
    refine ⟨hc.stampWith hroom hvalid (hkey ▸ hdata) ?_, ?_⟩
    · intro j _ hjvalid hjdata
      obtain ⟨k, hlt, hkvalid, hkkey, hrest⟩ := hc.covered j hjvalid hjdata
      by_cases hk : k = i
      · exact Or.inl ⟨hk ▸ hlt, hk ▸ hkkey⟩
      · exact Or.inr ⟨k, hlt, hk, hkvalid, hkkey, hrest⟩
    · intro data hget
      cases hget
      exact hdata

/-- The cache stays coherent when data is stored under a key, in the cache and
in the truth alike. -/
lemma Coherent.update (hroom : c.epoch + 1 < limit) (key : Key)
    (data : Data) : (c.update limit key data).Coherent (Function.update truth key data) := by
  unfold Cache.update
  split
  next hnone =>
    refine ⟨hc.stamped, ?_⟩
    intro j hjvalid hjdata
    have hne := lookup_eq_none hnone j hjvalid
    rw [Function.update_of_ne hne] at hjdata ⊢
    exact hc.covered j hjvalid hjdata
  next i hfound =>
    obtain ⟨hvalid, hkey, hfirst⟩ := lookup_eq_some hfound
    apply hc.stampWith hroom
    · exact hvalid
    · simp [hkey]
    intro j hj hjvalid hjdata
    by_cases hjkey : (c.entries j).key = key
    · -- Another slot of the key comes later, or it would have been found.
      refine Or.inl ⟨?_, hkey.trans hjkey.symm⟩
      exact lt_of_le_of_ne (not_lt.mp fun hlt => hfirst j hlt hjvalid hjkey) (Ne.symm hj)
    · rw [update_of_ne hjkey] at hjdata ⊢
      obtain ⟨k, hlt, hkvalid, hkkey, hrest⟩ := hc.covered j hjvalid hjdata
      refine Or.inr ⟨k, hlt, ?_, hkvalid, hkkey, hrest⟩
      rintro rfl
      exact hjkey (hkkey.symm.trans hkey)

omit hc

omit [DecidableEq Key] in
lemma victimFrom_spec (c : Cache size Key Data) (rest : List (Fin size)) (oldest : Fin size)
    (oldestStamp : Nat) (holdest : (c.entries oldest).stamp ≤ oldestStamp) :
    (c.entries (c.victimFrom rest oldest oldestStamp)).valid = false ∨
      (c.entries (c.victimFrom rest oldest oldestStamp)).stamp ≤ oldestStamp ∧
        ∀ i ∈ rest, (c.entries (c.victimFrom rest oldest oldestStamp)).stamp ≤
          (c.entries i).stamp := by
  induction rest generalizing oldest oldestStamp with
  | nil => exact Or.inr ⟨holdest, fun i hi => absurd hi List.not_mem_nil⟩
  | cons i rest ih =>
    unfold victimFrom
    split
    next hinvalid => exact Or.inl (by simpa using hinvalid)
    split
    next hlt =>
      rcases ih i _ le_rfl with hinvalid | ⟨hle, hrest⟩
      · exact Or.inl hinvalid
      refine Or.inr ⟨hle.trans hlt.le, ?_⟩
      intro k hk
      rcases List.mem_cons.mp hk with rfl | hk
      · exact hle
      · exact hrest k hk
    next hge =>
      rcases ih oldest oldestStamp holdest with hinvalid | ⟨hle, hrest⟩
      · exact Or.inl hinvalid
      refine Or.inr ⟨hle, ?_⟩
      intro k hk
      rcases List.mem_cons.mp hk with rfl | hk
      · exact hle.trans (Nat.not_lt.mp hge)
      · exact hrest k hk

omit [DecidableEq Key] in
/-- Inserting what the truth says never drops the only slot that covers another:
a covering slot carries a larger stamp than the slot it covers. -/
lemma Coherent.put [NeZero size] (hc : c.Coherent truth) (hroom : c.epoch + 1 < limit)
    {data : Data} (hdata : data = truth key) : (c.put limit key data).Coherent truth := by
  apply hc.stampWith hroom rfl hdata
  intro j _ hjvalid hjdata
  obtain ⟨k, hlt, hkvalid, hkkey, hkdata, hstamp⟩ := hc.covered j hjvalid hjdata
  refine Or.inr ⟨k, hlt, ?_, hkvalid, hkkey, hkdata, hstamp⟩
  intro hk
  have hbound : (c.entries 0).stamp ≤ limit - 1 := by
    have := hc.stamped 0
    omega
  rcases c.victimFrom_spec (List.finRange size) 0 (limit - 1) hbound with hinvalid | ⟨-, hleast⟩
  · rw [hk, Cache.victim, hinvalid] at hkvalid
    cases hkvalid
  · have hle := hleast j (List.mem_finRange j)
    rw [hk, Cache.victim] at hstamp
    omega

omit [DecidableEq Key] in
lemma coherent_clear (c : Cache size Key Data) (truth : Key → Data) : c.clear.Coherent truth :=
  ⟨fun _ => Nat.le_refl 0, nofun⟩

end Cache

end StampedCache
