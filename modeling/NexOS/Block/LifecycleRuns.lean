import NexOS.Block.Lifecycle
import NexOS.Lib.GuardedRuns

/-! # Removal of block devices

`blockdev_unregister` marks a device, looks at its references and clears its slot
in three sections, and the last one does not look again. What it saw still holds
there if nothing takes the mark back in between: the mark keeps new references
out, and a marked device is not protected. The mark is taken back by protecting
the device and by registering it. A transfer on a device that is in no slot at all
is let in without a reference.
-/

namespace NexOS.Block.Registry

open Function List GuardedRuns

variable {Dev : Type*} [DecidableEq Dev] {reg : Registry Dev}
  {dev : Dev} {info : DeviceInfo} {sec : Section Dev} {index : Nat}

/-- No caller is removing the device. -/
def NoRemoval (reg : Registry Dev) (dev : Dev) : Prop :=
  ∀ caller, (reg.unregisters caller).target ≠ some dev

/-- The section takes no mark back and lets no transfer in on a device that was
removed: protection is given to a device that is not being removed, registration
comes while no removal of the device is under way and the device is in no slot,
and transfers begin on devices that are in a slot or were not removed. -/
def Fits (reg : Registry Dev) : Section Dev → Prop
  | .setRootfsProtected dev protect => protect = true → (reg.info dev).removing = false
  | .registerPrepare caller => ∀ dev, reg.registers caller = .begun dev →
      reg.published dev = false ∧ reg.NoRemoval dev
  | .registerPublish caller => ∀ dev, reg.registers caller = .prepared dev →
      reg.published dev = false → none ∈ reg.slots ∨ reg.slots.length < deviceMax →
      reg.NoRemoval dev
  | .ioBegin dev => reg.published dev = false → reg.marked dev = false
  | _ => True

/-- A mark is a removal flag that keeps the device out of use: a protected device
has none, a removal under way relies on one, and one that saw no references can
still rely on that. -/
structure Guarded (reg : Registry Dev) : Prop where
  protection : ∀ dev, (reg.info dev).rootfsProtected = true → (reg.info dev).removing = false
  pending : ∀ caller dev, (reg.unregisters caller).target = some dev →
    (reg.info dev).removing = true
  checked : ∀ caller dev, reg.unregisters caller = .checked dev → (reg.info dev).ioRefs = 0#32
  marked : ∀ dev, reg.marked dev = true → (reg.info dev).removing = true

variable (hreg : reg.Guarded) {slots : List (Option Dev)}

include hreg

/-- A change of one device that keeps its flag, and its count while the flag is set. -/
lemma Guarded.setInfo (hprot : info.rootfsProtected = true → info.removing = false)
    (hflag : (reg.info dev).removing = true → info.removing = true)
    (hcount : (reg.info dev).removing = true → (reg.info dev).ioRefs = 0#32 → info.ioRefs = 0#32) :
    (reg.setInfo dev info).Guarded := by
  have hinfo : ∀ other, other ≠ dev → (reg.setInfo dev info).info other = reg.info other :=
    fun other hother => update_of_ne hother ..
  have hself : (reg.setInfo dev info).info dev = info := update_self ..
  refine ⟨fun other => ?_, fun caller other hpend => ?_, fun caller other hcheck => ?_,
    fun other hmark => ?_⟩
  · by_cases hother : other = dev
    · rw [hother, hself]
      exact hprot
    · rw [hinfo other hother]
      exact hreg.protection other
  · by_cases hother : other = dev
    · rw [hother, hself]
      exact hflag (hreg.pending caller dev (hother ▸ hpend))
    · rw [hinfo other hother]
      exact hreg.pending caller other hpend
  · by_cases hother : other = dev
    · subst hother
      rw [hself]
      refine hcount (hreg.pending caller other ?_) (hreg.checked caller other hcheck)
      rw [show reg.unregisters caller = .checked other from hcheck]
      rfl
    · rw [hinfo other hother]
      exact hreg.checked caller other hcheck
  · by_cases hother : other = dev
    · rw [hother, hself]
      exact hflag (hreg.marked dev (hother ▸ hmark))
    · rw [hinfo other hother]
      exact hreg.marked other hmark

/-- A change of a device that is not being removed. -/
lemma Guarded.setInfo_of_free (hfree : (reg.info dev).removing = false)
    (hprot : info.rootfsProtected = true → info.removing = false) :
    (reg.setInfo dev info).Guarded := by
  refine hreg.setInfo hprot (fun hflag => ?_) fun hflag => ?_
  all_goals
    rw [hfree] at hflag
    cases hflag

lemma Guarded.addRef (hfree : (reg.info dev).removing = false) : (reg.addRef dev).Guarded :=
  hreg.setInfo_of_free hfree (hreg.protection dev)

/-- Putting a protected device back into use. -/
lemma Guarded.restore (hprot : (reg.info dev).rootfsProtected = true) :
    (reg.setInfo dev (restore (reg.info dev))).Guarded :=
  hreg.setInfo_of_free (hreg.protection dev hprot) fun _ => rfl

omit hreg

lemma usable_free (huse : usable info = true) : info.removing = false := by
  simp only [usable, Bool.and_eq_true, Bool.not_eq_true'] at huse
  exact huse.1

include hreg

lemma Guarded.release (dev : Dev) : (reg.release dev).Guarded := by
  unfold Registry.release
  split
  next hrefs =>
    refine hreg.setInfo (hreg.protection dev) id fun _ hzero => ?_
    exact absurd hzero hrefs
  · exact hreg

lemma Guarded.setState (dev : Dev) (state : DeviceState) : (reg.setState dev state).Guarded := by
  unfold Registry.setState
  split
  next hrefuse => exact hreg.restore hrefuse.1
  next hallowed =>
    refine hreg.setInfo (fun hprot => ?_) (fun hflag => ?_) fun _ hzero => hzero
    · -- A protected device does not go into removal.
      have hstate : state ≠ .removing := fun heq => hallowed ⟨hprot, .inr heq⟩
      simpa [hstate] using hreg.protection dev hprot
    · simp [hflag]

lemma Guarded.setRootfsProtected (dev : Dev) (protect : Bool)
    (hfits : reg.Fits (.setRootfsProtected dev protect)) :
    (reg.setRootfsProtected dev protect).Guarded := by
  unfold Registry.setRootfsProtected
  rcases protect with _ | _
  · exact hreg.setInfo (fun hprot => nomatch hprot) id fun _ hzero => hzero
  have hfree : (reg.info dev).removing = false := hfits rfl
  dsimp only
  split
  · exact hreg.setInfo_of_free hfree fun _ => rfl
  · exact hreg.setInfo_of_free hfree fun _ => hfree

/-- A device is set up for use while no removal of it is under way. -/
lemma Guarded.setUp (hremoval : reg.NoRemoval dev)
    (hfree : info.removing = false) (slots : List (Option Dev)) (registers : Nat → Register Dev) :
    ({ reg.setInfo dev info with
        slots := slots, registers := registers
        marked := update reg.marked dev false } : Registry Dev).Guarded := by
  have hinfo : ∀ other, other ≠ dev → update reg.info dev info other = reg.info other :=
    fun other hother => update_of_ne hother ..
  refine ⟨fun other => ?_, fun caller other hpend => ?_, fun caller other hcheck => ?_,
    fun other hmark => ?_⟩
  · change (update reg.info dev info other).rootfsProtected = true → _
    by_cases hother : other = dev
    · intro _
      rw [hother]
      change (update reg.info dev info dev).removing = false
      rw [update_self, hfree]
    · intro hprot
      change (update reg.info dev info other).removing = false
      rw [hinfo other hother] at hprot ⊢
      exact hreg.protection other hprot
  · have hother : other ≠ dev := fun heq => hremoval caller (heq ▸ hpend)
    change (update reg.info dev info other).removing = true
    rw [hinfo other hother]
    exact hreg.pending caller other hpend
  · have hother : other ≠ dev := by
      rintro rfl
      apply hremoval caller
      rw [show reg.unregisters caller = .checked other from hcheck]
      rfl
    change (update reg.info dev info other).ioRefs = 0#32
    rw [hinfo other hother]
    exact hreg.checked caller other hcheck
  · change update reg.marked dev false other = true at hmark
    change (update reg.info dev info other).removing = true
    by_cases hother : other = dev
    · rw [hother, update_self] at hmark
      cases hmark
    · rw [update_of_ne hother] at hmark
      rw [hinfo other hother]
      exact hreg.marked other hmark

lemma Guarded.registerPrepare (caller : Nat)
    (hfits : reg.Fits (.registerPrepare caller)) : (reg.registerPrepare caller).Guarded := by
  unfold Registry.registerPrepare
  split
  next dev hbegun =>
    obtain ⟨habsent, hremoval⟩ := hfits dev hbegun
    rw [habsent]
    exact hreg.setUp hremoval rfl _ _
  · exact hreg

lemma Guarded.registerPublish (caller : Nat)
    (hfits : reg.Fits (.registerPublish caller)) : (reg.registerPublish caller).Guarded := by
  unfold Registry.registerPublish
  split
  next dev hprepared =>
    split
    · exact ⟨hreg.protection, hreg.pending, hreg.checked, hreg.marked⟩
    next hroom =>
      rw [not_or, Bool.not_eq_true, not_and_or, not_not, not_le] at hroom
      exact hreg.setUp (hfits dev hprepared hroom.1 hroom.2) rfl _ _
  · exact hreg

omit [DecidableEq Dev] in
/-- A call of `blockdev_unregister` moves to a stage that its device justifies. -/
lemma Guarded.setUnregister (caller : Nat) {stage : Unregister Dev}
    (hpend : ∀ dev, stage.target = some dev → (reg.info dev).removing = true)
    (hcheck : ∀ dev, stage = .checked dev → (reg.info dev).ioRefs = 0#32) :
    ({ reg with unregisters := update reg.unregisters caller stage } : Registry Dev).Guarded := by
  refine ⟨hreg.protection, fun other dev hother => ?_, fun other dev hother => ?_, hreg.marked⟩
  · change (update reg.unregisters caller stage other).target = some dev at hother
    by_cases hcaller : other = caller
    · rw [hcaller, update_self] at hother
      exact hpend dev hother
    · rw [update_of_ne hcaller] at hother
      exact hreg.pending other dev hother
  · change update reg.unregisters caller stage other = .checked dev at hother
    by_cases hcaller : other = caller
    · rw [hcaller, update_self] at hother
      exact hcheck dev hother
    · rw [update_of_ne hcaller] at hother
      exact hreg.checked other dev hother

lemma Guarded.unregisterMark (caller : Nat) (dev : Dev) :
    (reg.unregisterMark caller dev).Guarded := by
  unfold Registry.unregisterMark
  split
  · exact hreg
  split
  next hprot => exact hreg.restore hprot
  next hprot =>
    have hflagged : (reg.setInfo dev
        { reg.info dev with removing := true, state := .removing }).Guarded :=
      hreg.setInfo (fun hflag => absurd hflag hprot) (fun _ => rfl) fun _ hzero => hzero
    have hself : ((reg.setInfo dev
        { reg.info dev with removing := true, state := .removing }).info dev).removing = true := by
      change (update reg.info dev _ dev).removing = true
      rw [update_self]
    have hpend : ∀ other, (Unregister.marked dev).target = some other →
        ((reg.setInfo dev { reg.info dev with
          removing := true, state := .removing }).info other).removing = true := by
      intro other hother
      cases hother
      exact hself
    have hstage := hflagged.setUnregister caller hpend fun _ hcheck => nomatch hcheck
    refine ⟨hstage.protection, hstage.pending, hstage.checked, fun other hmark => ?_⟩
    change update reg.marked dev true other = true at hmark
    by_cases hother : other = dev
    · rw [hother]
      exact hself
    · rw [update_of_ne hother] at hmark
      exact hstage.marked other hmark

omit [DecidableEq Dev] in
lemma Guarded.unregisterCheck (caller : Nat) : (reg.unregisterCheck caller).Guarded := by
  unfold Registry.unregisterCheck
  split
  next dev hmark =>
    have hflag : (reg.info dev).removing = true := hreg.pending caller dev (by rw [hmark]; rfl)
    split
    · exact hreg.setUnregister caller (fun _ htgt => nomatch htgt) fun _ hstage => nomatch hstage
    next hrefs =>
      refine hreg.setUnregister caller (fun other htgt => ?_) fun other hstage => ?_
      · cases htgt
        exact hflag
      · cases hstage
        exact not_not.mp hrefs
  · exact hreg

lemma Guarded.unregisterClear (caller : Nat) : (reg.unregisterClear caller).Guarded := by
  unfold Registry.unregisterClear
  split
  next dev hcheck =>
    have hdone : ({ reg with unregisters := update reg.unregisters caller .idle } :
        Registry Dev).Guarded :=
      hreg.setUnregister caller (fun _ htgt => nomatch htgt) fun _ hstage => nomatch hstage
    split
    · exact hdone
    next index hindex =>
      have hclear : (Registry.setInfo { reg with
          unregisters := update reg.unregisters caller .idle } dev
          { reg.info dev with ioRefs := 0#32 }).Guarded :=
        hdone.setInfo (hreg.protection dev) id fun _ _ => rfl
      exact ⟨hclear.protection, hclear.pending, hclear.checked, hclear.marked⟩
  · exact hreg

/-- One section that fits keeps the registry guarded. -/
lemma Guarded.perform (hfits : reg.Fits sec) : (reg.perform sec).Guarded := by
  cases sec with
  | ioBegin dev =>
    simp only [Registry.perform, execute, ioBegin]
    split
    · split
      next huse => exact hreg.addRef (usable_free huse)
      · exact hreg
    · exact hreg
  | release dev => exact hreg.release dev
  | acquire index =>
    simp only [Registry.perform, execute, acquire]
    split
    next dev hslot =>
      split
      · exact hreg
      next hfree =>
        rw [not_or, Bool.not_eq_true] at hfree
        exact hreg.addRef hfree.1
    · exact hreg
  | acquireDevice dev =>
    simp only [Registry.perform, execute, acquireDevice]
    split
    next huse => exact hreg.addRef (usable_free (Bool.and_eq_true_iff.mp huse).2)
    · exact hreg
  | getInfo index =>
    simp only [Registry.perform, execute, getInfo]
    split
    next dev hslot =>
      split
      · exact hreg
      next hfree => exact hreg.addRef (Bool.not_eq_true _ ▸ hfree)
    · exact hreg
  | resetBegin dev =>
    simp only [Registry.perform, execute, resetBegin]
    split
    next hfree => exact hreg.setInfo_of_free hfree.2.1 (hreg.protection dev)
    · exact hreg
  | resetEnd dev ok =>
    simp only [Registry.perform, execute, resetEnd]
    split
    · exact hreg
    · exact hreg.setInfo (hreg.protection dev) id fun _ hzero => hzero
  | setState dev state => exact hreg.setState dev state
  | setRootfsProtected dev protect => exact hreg.setRootfsProtected dev protect hfits
  | registerBegin caller dev =>
    simp only [Registry.perform, execute, registerBegin]
    split
    · exact hreg
    · exact ⟨hreg.protection, hreg.pending, hreg.checked, hreg.marked⟩
  | registerPrepare caller => exact hreg.registerPrepare caller hfits
  | registerPublish caller => exact hreg.registerPublish caller hfits
  | unregisterMark caller dev => exact hreg.unregisterMark caller dev
  | unregisterCheck caller => exact hreg.unregisterCheck caller
  | unregisterClear caller => exact hreg.unregisterClear caller

omit hreg

/-! ## Slots and admissions -/

omit [DecidableEq Dev] in
lemma getElem?_place (added : Dev)
    (hslot : slots[index]? = some (some dev)) : (place slots added)[index]? = some (some dev) := by
  unfold place
  split
  next free hfree =>
    have hne : free ≠ index := by
      rintro rfl
      obtain ⟨hlen, hnone, -⟩ := List.findIdx?_eq_some_iff_getElem.mp hfree
      rw [List.getElem?_eq_getElem hlen, Option.some.injEq] at hslot
      rw [hslot] at hnone
      cases hnone
    rw [List.getElem?_set_ne hne, hslot]
  · have hlen := (List.getElem?_eq_some_iff.mp hslot).1
    rw [List.getElem?_append_left hlen, hslot]

omit [DecidableEq Dev] in
lemma getElem?_trim (hslot : slots[index]? = some (some dev)) :
    (trim slots)[index]? = some (some dev) := by
  induction slots using List.reverseRecOn with
  | nil => simp at hslot
  | append_singleton slots last ih =>
    unfold trim
    cases last with
    | some other => rwa [rdropWhile_concat_neg _ _ _ (by simp)]
    | none =>
      rw [rdropWhile_concat_pos _ _ _ rfl]
      apply ih
      by_cases hlen : index < slots.length
      · rwa [getElem?_append_left hlen] at hslot
      rw [getElem?_append_right (not_lt.mp hlen)] at hslot
      cases hindex : index - slots.length with
      | zero => simp [hindex] at hslot
      | succ _ => simp [hindex] at hslot

/-- Only the last sections of registration and removal write into the table. -/
lemma slots_perform (hpublish : ∀ caller, sec ≠ .registerPublish caller)
    (hclear : ∀ caller, sec ≠ .unregisterClear caller) : (reg.perform sec).slots = reg.slots := by
  cases sec with
  | registerPublish caller => exact absurd rfl (hpublish caller)
  | unregisterClear caller => exact absurd rfl (hclear caller)
  | ioBegin dev =>
    simp only [perform, execute, ioBegin]
    split
    · split <;> rfl
    · rfl
  | acquire index =>
    simp only [perform, execute, acquire]
    split
    · split <;> rfl
    · rfl
  | getInfo index =>
    simp only [perform, execute, getInfo]
    split
    · split <;> rfl
    · rfl
  | unregisterMark caller dev =>
    simp only [perform, execute, unregisterMark]
    split
    · rfl
    · split <;> rfl
  | release dev =>
    simp only [perform, execute, release]
    split <;> rfl
  | acquireDevice dev =>
    simp only [perform, execute, acquireDevice]
    split <;> rfl
  | resetBegin dev =>
    simp only [perform, execute, resetBegin]
    split <;> rfl
  | resetEnd dev ok =>
    simp only [perform, execute, resetEnd]
    split <;> rfl
  | setState dev state =>
    simp only [perform, execute, setState]
    split <;> rfl
  | setRootfsProtected dev protect =>
    simp only [perform, execute, setRootfsProtected]
    split <;> rfl
  | registerBegin caller dev =>
    simp only [perform, execute, registerBegin]
    split <;> rfl
  | registerPrepare caller =>
    simp only [perform, execute, registerPrepare]
    split <;> rfl
  | unregisterCheck caller =>
    simp only [perform, execute, unregisterCheck]
    split <;> rfl

/-- A device leaves its slot only while it has no references and no protection. -/
lemma Guarded.slot_lost (hreg : reg.Guarded) (hslot : reg.slots[index]? = some (some dev))
    (hlost : (reg.perform sec).slots[index]? ≠ some (some dev)) :
    (reg.info dev).ioRefs = 0#32 ∧ (reg.info dev).rootfsProtected = false := by
  by_cases hpublish : ∃ caller, sec = .registerPublish caller
  · obtain ⟨caller, rfl⟩ := hpublish
    exfalso
    simp only [Registry.perform, execute, Registry.registerPublish] at hlost
    split at hlost
    · split at hlost
      · exact hlost hslot
      · exact hlost (getElem?_place _ hslot)
    · exact hlost hslot
  by_cases hclear : ∃ caller, sec = .unregisterClear caller
  · obtain ⟨caller, rfl⟩ := hclear
    simp only [Registry.perform, execute, Registry.unregisterClear] at hlost
    split at hlost
    next target hcheck =>
      split at hlost
      · exact absurd hslot hlost
      next found hfound =>
        by_cases hindex : found = index
        · subst hindex
          obtain ⟨hlen, htgt, -⟩ := findIdx?_eq_some_iff_getElem.mp hfound
          rw [getElem?_eq_getElem hlen, Option.some.injEq] at hslot
          rw [hslot, decide_eq_true_eq, Option.some.injEq] at htgt
          subst htgt
          have hflag := hreg.pending caller dev (by rw [hcheck]; rfl)
          refine ⟨hreg.checked caller dev hcheck, Bool.eq_false_iff.mpr fun hprot => ?_⟩
          rw [hreg.protection dev hprot] at hflag
          cases hflag
        · refine absurd (getElem?_trim ?_) hlost
          rw [getElem?_set_ne hindex, hslot]
    · exact absurd hslot hlost
  · have hsame : (reg.perform sec).slots = reg.slots :=
      slots_perform (fun caller heq => hpublish ⟨caller, heq⟩) fun caller heq =>
        hclear ⟨caller, heq⟩
    rw [hsame] at hlost
    exact absurd hslot hlost

/-- Nothing is let in on a marked device. -/
lemma Guarded.admits_marked (hreg : reg.Guarded) (hfits : reg.Fits sec)
    (hmark : reg.marked dev = true) : reg.admits sec ≠ some dev := by
  have hflag := hreg.marked dev hmark
  have hnot : ∀ other, (reg.info other).removing = false → some other ≠ some dev := by
    rintro other hfree heq
    rw [Option.some.injEq] at heq
    rw [heq, hflag] at hfree
    cases hfree
  cases sec with
  | ioBegin other =>
    simp only [admits, execute, ioBegin]
    split
    · split
      next huse => exact hnot other (usable_free huse)
      · exact nofun
    next habsent =>
      -- A device in no slot is let in, but a removed one is not asked for.
      rintro ⟨⟩
      rw [hfits (Bool.eq_false_iff.mpr habsent)] at hmark
      cases hmark
  | acquire index =>
    simp only [admits, execute, acquire]
    split
    next other hslot =>
      split
      · exact nofun
      next hfree =>
        rw [not_or, Bool.not_eq_true] at hfree
        exact hnot other hfree.1
    · exact nofun
  | acquireDevice other =>
    simp only [admits, execute, acquireDevice]
    split
    next huse => exact hnot other (usable_free (Bool.and_eq_true_iff.mp huse).2)
    · exact nofun
  | getInfo index =>
    simp only [admits, execute, getInfo]
    split
    next other hslot =>
      split
      · exact nofun
      next hfree => exact hnot other (Bool.not_eq_true _ ▸ hfree)
    · exact nofun
  | resetBegin other =>
    simp only [admits, execute, resetBegin]
    split
    next hfree => exact hnot other hfree.2.1
    · exact nofun
  | _ => exact nofun

/-! ## Runs -/

omit [DecidableEq Dev] in
lemma guarded_init : (init : Registry Dev).Guarded :=
  ⟨fun _ _ => rfl, fun _ _ hpend => (nomatch hpend), fun _ _ hcheck => (nomatch hcheck),
    fun _ hmark => (nomatch hmark)⟩

/-- In every interleaving whose sections fit, the next section takes a device out
of its slot only while its count of references is zero and it is not protected,
and lets nothing in on a device that was marked for removal and has not been
registered since. -/
theorem removal_safe (sections : List (Section Dev)) (sec : Section Dev)
    (hfits : RunFits perform Fits (init : Registry Dev) (sections ++ [sec])) :
    (∀ (index : Nat) dev, (run perform init sections).slots[index]? = some (some dev) →
      ((run perform init sections).perform sec).slots[index]? ≠ some (some dev) →
      ((run perform init sections).info dev).ioRefs = 0#32 ∧
        ((run perform init sections).info dev).rootfsProtected = false) ∧
    ∀ dev, (run perform init sections).marked dev = true →
      (run perform init sections).admits sec ≠ some dev := by
  obtain ⟨hbefore, hlast, -⟩ := runFits_append.mp hfits
  have hguarded :=
    run_preserves Guarded (fun _ _ hreg hsec => hreg.perform hsec) guarded_init hbefore
  exact ⟨fun index dev => hguarded.slot_lost, fun dev => hguarded.admits_marked hlast⟩

/-- Caller 0 registers device 3. -/
def registered : List (Section Nat) := [.registerBegin 0 3, .registerPrepare 0, .registerPublish 0]

/-- A device is used, marked, given back and removed. -/
theorem removal_safe_sequence :
    (run perform init (registered ++ [.acquire 0, .unregisterMark 1 3, .release 3,
        .unregisterCheck 1])).slots[0]? = some (some 3) ∧
      ((run perform init (registered ++ [.acquire 0, .unregisterMark 1 3, .release 3,
        .unregisterCheck 1])).info 3).ioRefs = 0#32 := by
  refine ⟨by decide, ((removal_safe (registered ++ [.acquire 0, .unregisterMark 1 3, .release 3,
    .unregisterCheck 1]) (.unregisterClear 1) ?_).1 0 3 (by decide) (by decide)).1⟩
  refine ⟨trivial, ?_, ?_, trivial, trivial, trivial, trivial, trivial, trivial⟩
  · rintro dev ⟨⟩
    exact ⟨rfl, fun caller => nofun⟩
  · exact fun caller => nofun

/-- The device is protected between the second and the third section of its
removal. A transfer is let in on it, and its slot is cleared all the same. -/
theorem removal_of_protected :
    (run perform init (registered ++ [.unregisterMark 1 3, .unregisterCheck 1])).marked 3 = true ∧
    (run perform init (registered ++ [.unregisterMark 1 3, .unregisterCheck 1,
      .setRootfsProtected 3 true])).admits (.ioBegin 3) = some 3 ∧
    (run perform init (registered ++ [.unregisterMark 1 3, .unregisterCheck 1,
      .setRootfsProtected 3 true, .ioBegin 3])).slots = [some 3] ∧
    (run perform init (registered ++ [.unregisterMark 1 3, .unregisterCheck 1,
      .setRootfsProtected 3 true, .ioBegin 3])).info 3 = ⟨.online, false, true, 1#32⟩ ∧
    (run perform init (registered ++ [.unregisterMark 1 3, .unregisterCheck 1,
      .setRootfsProtected 3 true, .ioBegin 3, .unregisterClear 1])).slots = [] := by
  decide

end NexOS.Block.Registry
