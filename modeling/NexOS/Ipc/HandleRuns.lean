import NexOS.Ipc.Objects
import NexOS.Lib.GuardedRuns

/-! # What an IPC handle denotes

A handle stays good for the object it was given out for until that object is destroyed.
Its slot then takes the next object that is created, under any name, and the old handle
reaches that one. This does not happen in runs in which an object is only created in a
slot that no handle was ever given out for.
-/

namespace NexOS.Ipc

open NamedSlots GuardedRuns Option

/-- Both tables, the serial number of the next object, and for each table the handles
that were given out with the serial numbers of their objects. -/
structure Objects where
  shm : ShmTable
  mq : QueueTable
  nextSerial : Nat
  shmGrants : List (Nat × Nat)
  mqGrants : List (Nat × Nat)

/-- No object is in use. -/
def Objects.boot : Objects := ⟨List.replicate 16 .cleared, List.replicate 16 .cleared, 0, [], []⟩

/-- Calls of any process. Mappings also come and go without a handle: with a fork, with
an unmapped page and with a process. -/
inductive Call where
  | shmOpen (name : List UInt8) (size : UInt64) (flags : UInt32) (frames : List (UInt64 × Bool))
  | shmUnlink (name : List UInt8)
  | shmMmap (request : MmapRequest) (pid : UInt32) (placed : Bool) (mapped : Nat)
  | shmRetain (index : Nat) (pid : UInt32)
  | shmRelease (index : Nat) (pid : UInt32)
  | shmReleasePid (pid : UInt32)
  | mqOpen (name : List UInt8) (flags : UInt32)
  | mqUnlink (name : List UInt8)
  | mqSend (handle : UInt32) (data : List UInt8) (copied : Bool)
  | mqReceive (handle size : UInt32) (copied : Bool)

/-- A handle that was given out, with the object it denotes. -/
def grantOf {Body : Type} (slots : List (Slot Body)) (grants : List (Nat × Nat)) :
    Option Nat → List (Nat × Nat)
  | none => grants
  | some handle => (handle, (serialAt slots (handle - 1)).getD 0) :: grants

/-- A call, and what it granted or used. -/
def Objects.perform (objects : Objects) : Call → Objects
  | .shmOpen name size flags frames =>
    let (handle, shm) := Ipc.shmOpen objects.shm objects.nextSerial name size flags frames
    { objects with
      shm := shm
      nextSerial := objects.nextSerial + 1
      shmGrants := grantOf shm objects.shmGrants handle }
  | .shmUnlink name => { objects with shm := (Ipc.shmUnlink objects.shm name).2 }
  | .shmMmap request pid placed mapped =>
    { objects with shm := (Ipc.shmMmap objects.shm request pid placed mapped).2 }
  | .shmRetain index pid =>
    { objects with shm := objects.shm.modify index (ShmObject.attach pid) }
  | .shmRelease index pid =>
    { objects with shm := objects.shm.modify index (ShmObject.releaseRef pid) }
  | .shmReleasePid pid => { objects with shm := objects.shm.map (ShmObject.releasePid pid) }
  | .mqOpen name flags =>
    let (handle, mq) := Ipc.mqOpen objects.mq objects.nextSerial name flags
    { objects with
      mq := mq
      nextSerial := objects.nextSerial + 1
      mqGrants := grantOf mq objects.mqGrants handle }
  | .mqUnlink name => { objects with mq := (Ipc.mqUnlink objects.mq name).2 }
  | .mqSend handle data copied =>
    { objects with mq := (Ipc.mqSend objects.mq handle data copied).2 }
  | .mqReceive handle size copied =>
    { objects with mq := (Ipc.mqReceive objects.mq handle size copied).2 }

/-- An object is only created in a slot that no handle was ever given out for. -/
def Objects.Fits (objects : Objects) : Call → Prop
  | .shmOpen name size flags _ => ∀ index ∈ shmOpenSlot objects.shm name size flags,
      ∀ grant ∈ objects.shmGrants, grant.1 ≠ index + 1
  | .mqOpen name flags => ∀ index ∈ mqOpenSlot objects.mq name flags,
      ∀ grant ∈ objects.mqGrants, grant.1 ≠ index + 1
  | _ => True

instance (objects : Objects) : (call : Call) → Decidable (objects.Fits call)
  | .shmOpen .. | .mqOpen .. =>
    inferInstanceAs (Decidable (∀ index ∈ _, ∀ grant ∈ _, _ ≠ _))
  | .shmUnlink _ | .shmMmap .. | .shmRetain .. | .shmRelease .. | .shmReleasePid _
  | .mqUnlink _ | .mqSend .. | .mqReceive .. => inferInstanceAs (Decidable True)

/-! ## Changes that keep an object -/

variable {index : Nat} {Body : Type} {name : List UInt8} {objects : ShmTable} {queues : QueueTable}
  {flags : UInt32}

lemma keeps_cleared {old new : Slot Body} (hused : new.used = false) : Keeps old new := by
  intro htrue
  rw [hused] at htrue
  cases htrue

lemma keeps_destroyIfUnused (object : ShmObject) : Keeps object object.destroyIfUnused := by
  unfold ShmObject.destroyIfUnused ShmObject.destroy
  split
  · split
    · exact keeps_cleared rfl
    · exact .refl object
  · exact .refl object

lemma keeps_destroyIfUnlinkedEmpty (queue : MessageQueue) :
    Keeps queue queue.destroyIfUnlinkedEmpty := by
  unfold MessageQueue.destroyIfUnlinkedEmpty
  split
  · exact keeps_cleared rfl
  · exact .refl queue

lemma keeps_attach (pid : UInt32) (object : ShmObject) : Keeps object (object.attach pid) :=
  fun hused => ⟨hused, rfl⟩

lemma keeps_releaseRef (pid : UInt32) (object : ShmObject) :
    Keeps object (object.releaseRef pid) := by
  unfold ShmObject.releaseRef
  split
  · exact .refl object
  · refine .trans (fun hused => ?_) (keeps_destroyIfUnused _)
    exact ⟨hused, rfl⟩

lemma keeps_releasePid (pid : UInt32) (object : ShmObject) :
    Keeps object (object.releasePid pid) := by
  unfold ShmObject.releasePid
  split
  · exact .refl object
  · refine .trans (fun hused => ?_) (keeps_destroyIfUnused _)
    exact ⟨hused, rfl⟩

lemma keeps_iterate {change : Slot Body → Slot Body}
    (hchg : ∀ slot, Keeps slot (change slot)) (count : Nat) (slot : Slot Body) :
    Keeps slot (change^[count] slot) := by
  induction count generalizing slot with
  | zero => exact .refl slot
  | succ count ih => exact (hchg slot).trans (ih (change slot))

/-! ## The calls -/

variable {grants : List (Nat × Nat)} {slots : List (Slot Body)}

lemma serialAt_set {new : Slot Body} (hindex : index < slots.length) :
    serialAt (slots.set index new) index = some new.serial := by
  rw [serialAt, List.getElem?_set_self hindex, map_some]

lemma lt_of_firstFree (hfree : firstFree slots = some index) : index < slots.length :=
  (List.findIdx?_eq_some_iff_getElem.mp hfree).1

/-- An open that finds the name gives out its handle once more. -/
lemma denotes_grantOf_byName (hslots : Denotes slots grants)
    (hfound : byName slots name = some index) :
    Denotes slots (grantOf slots grants (some (index + 1))) := by
  obtain ⟨slot, hslot, -⟩ := used_of_byName hfound
  have hser : serialAt slots index = some slot.serial := by rw [serialAt, hslot]; rfl
  rw [grantOf, Nat.add_sub_cancel, hser]
  exact hslots.grant hser

/-- An open that creates an object in a fresh slot gives out its handle. -/
lemma denotes_grantOf_create (hslots : Denotes slots grants)
    (hfree : firstFree slots = some index) (hfresh : ∀ grant ∈ grants, grant.1 ≠ index + 1)
    (new : Slot Body) :
    Denotes (slots.set index new) (grantOf (slots.set index new) grants (some (index + 1))) := by
  rw [grantOf, Nat.add_sub_cancel, serialAt_set (lt_of_firstFree hfree)]
  exact hslots.create hfresh new

lemma firstFree_of_shmOpenSlot {size : UInt64}
    (hslot : shmOpenSlot objects name size flags = some index) :
    firstFree objects = some index := by
  simp only [shmOpenSlot, ite_none_left_eq_some] at hslot
  exact hslot.2.2.2

lemma firstFree_of_mqOpenSlot (hslot : mqOpenSlot queues name flags = some index) :
    firstFree queues = some index := (ite_none_left_eq_some.mp hslot).2

variable (hobjs : Denotes objects grants)

include hobjs

lemma denotes_shmOpen (serial : Nat) {size : UInt64} (frames : List (UInt64 × Bool))
    (hfits : ∀ index ∈ shmOpenSlot objects name size flags, ∀ grant ∈ grants, grant.1 ≠ index + 1) :
    Denotes (shmOpen objects serial name size flags frames).2
      (grantOf (shmOpen objects serial name size flags frames).2 grants
        (shmOpen objects serial name size flags frames).1) := by
  unfold shmOpen
  split
  · exact hobjs
  split
  next index hfound =>
    split
    · exact hobjs
    · exact denotes_grantOf_byName hobjs hfound
  split
  · exact hobjs
  next index hslot =>
    have hfree := firstFree_of_shmOpenSlot hslot
    split
    · -- the object that could not get its pages is gone before anyone saw it
      refine hobjs.of_keeps fun other new hnew => ?_
      rw [List.getElem?_set] at hnew
      split at hnew
      next hother =>
        subst hother
        refine ⟨_, List.getElem?_eq_getElem (lt_of_firstFree hfree), ?_⟩
        split at hnew
        · cases hnew
          exact keeps_cleared rfl
        · cases hnew
      · exact ⟨new, hnew, .refl new⟩
    · exact denotes_grantOf_create hobjs hfree (hfits index hslot) _

lemma denotes_shmUnlink (name : List UInt8) : Denotes (shmUnlink objects name).2 grants := by
  unfold shmUnlink
  split
  · exact hobjs
  next index _ =>
    refine hobjs.modify index fun object => .trans (fun hused => ?_) (keeps_destroyIfUnused _)
    exact ⟨hused, rfl⟩

lemma denotes_shmMmap (req : MmapRequest) (pid : UInt32) (placed : Bool) (mapped : Nat) :
    Denotes (shmMmap objects req pid placed mapped).2 grants := by
  unfold shmMmap
  split
  · exact hobjs
  next index _ =>
    dsimp only
    split
    · exact hobjs
    split
    · exact hobjs.modify index fun object => keeps_iterate (keeps_attach pid) _ object
    refine hobjs.modify index fun object => ?_
    exact (keeps_iterate (keeps_attach pid) mapped object).trans
      (keeps_iterate (keeps_releaseRef pid) mapped _)

omit hobjs

lemma denotes_mqOpen (hqueues : Denotes queues grants) (serial : Nat)
    (hfits : ∀ index ∈ mqOpenSlot queues name flags, ∀ grant ∈ grants, grant.1 ≠ index + 1) :
    Denotes (mqOpen queues serial name flags).2
      (grantOf (mqOpen queues serial name flags).2 grants (mqOpen queues serial name flags).1) := by
  unfold mqOpen
  split
  · exact hqueues
  split
  next index hfound =>
    split
    · exact hqueues
    · exact denotes_grantOf_byName hqueues hfound
  · split
    · exact hqueues
    next index hslot =>
      exact denotes_grantOf_create hqueues (firstFree_of_mqOpenSlot hslot) (hfits index hslot) _

lemma denotes_mqUnlink (hqueues : Denotes queues grants) (name : List UInt8) :
    Denotes (mqUnlink queues name).2 grants := by
  unfold mqUnlink
  split
  · exact hqueues
  split
  · exact hqueues
  next index _ =>
    refine hqueues.modify index fun queue =>
      .trans (fun hused => ?_) (keeps_destroyIfUnlinkedEmpty _)
    exact ⟨hused, rfl⟩

/-- A message is refused, or it goes into the queue behind the handle. -/
lemma mqSend_cases (queues : QueueTable) (handle : UInt32) (data : List UInt8) (copied : Bool) :
    mqSend queues handle data copied = (none, queues) ∨
      ∃ index queue, ofHandle queues handle.toNat = some index ∧ queues[index]? = some queue ∧
        data.length ≤ 256 ∧ queue.body.count ≠ 16 ∧
        mqSend queues handle data copied = (some index, queues.modify index fun queue =>
          { queue with body := queue.body.push data }) := by
  unfold mqSend
  rcases hhandle : ofHandle queues handle.toNat with _ | index
  · exact .inl rfl
  obtain ⟨-, queue, hqueue, -⟩ := of_ofHandle hhandle
  dsimp only
  split
  · exact .inl rfl
  next hgood =>
    simp only [hqueue, Bool.or_eq_true, decide_eq_true_eq, not_or, map_some, getD_some] at hgood
    exact .inr ⟨index, queue, rfl, hqueue, Nat.le_of_not_lt hgood.1.2, hgood.2, rfl⟩

/-- Nothing is received, or the oldest message of the queue behind the handle. -/
lemma mqReceive_cases (queues : QueueTable) (handle size : UInt32) (copied : Bool) :
    mqReceive queues handle size copied = (none, queues) ∨
      ∃ index queue, ofHandle queues handle.toNat = some index ∧ queues[index]? = some queue ∧
        queue.body.count ≠ 0 ∧
        mqReceive queues handle size copied =
          (some (index, queue.body.front.size, queue.body.front.bytes),
            queues.modify index fun queue =>
              MessageQueue.destroyIfUnlinkedEmpty { queue with body := queue.body.pop }) := by
  unfold mqReceive
  rcases hhandle : ofHandle queues handle.toNat with _ | index
  · exact .inl rfl
  obtain ⟨-, queue, hqueue, -⟩ := of_ofHandle hhandle
  dsimp only
  split
  · exact .inl rfl
  next hgood =>
    simp only [hqueue, Bool.or_eq_true, decide_eq_true_eq, not_or, map_some, getD_some] at hgood
    exact .inr ⟨index, queue, rfl, hqueue, hgood.1.2, by rw [hqueue]; rfl⟩

lemma denotes_mqSend (hqueues : Denotes queues grants) (handle : UInt32) (data : List UInt8)
    (copied : Bool) : Denotes (mqSend queues handle data copied).2 grants := by
  rcases mqSend_cases queues handle data copied with hsame | ⟨index, _, -, -, -, -, hsend⟩
  · rwa [hsame]
  · rw [hsend]
    exact hqueues.modify index fun queue hused => ⟨hused, rfl⟩

lemma denotes_mqReceive (hqueues : Denotes queues grants) (handle size : UInt32) (copied : Bool) :
    Denotes (mqReceive queues handle size copied).2 grants := by
  rcases mqReceive_cases queues handle size copied with hsame | ⟨index, _, -, -, -, hreceive⟩
  · rwa [hsame]
  rw [hreceive]
  refine hqueues.modify index fun queue =>
    .trans (fun hused => ?_) (keeps_destroyIfUnlinkedEmpty _)
  exact ⟨hused, rfl⟩

/-! ## Runs -/

/-- Both tables denote what their handles were given out for. -/
structure Objects.Denoted (objects : Objects) : Prop where
  shm : Denotes objects.shm objects.shmGrants
  mq : Denotes objects.mq objects.mqGrants

lemma Objects.Denoted.perform {objects : Objects} (hobjs : objects.Denoted) {call : Call}
    (hfits : objects.Fits call) : (objects.perform call).Denoted := by
  cases call with
  | shmOpen name size flags frames =>
    exact ⟨denotes_shmOpen hobjs.shm objects.nextSerial frames hfits, hobjs.mq⟩
  | shmUnlink name => exact ⟨denotes_shmUnlink hobjs.shm name, hobjs.mq⟩
  | shmMmap req pid placed mapped =>
    exact ⟨denotes_shmMmap hobjs.shm req pid placed mapped, hobjs.mq⟩
  | shmRetain index pid => exact ⟨hobjs.shm.modify index (keeps_attach pid), hobjs.mq⟩
  | shmRelease index pid => exact ⟨hobjs.shm.modify index (keeps_releaseRef pid), hobjs.mq⟩
  | shmReleasePid pid => exact ⟨hobjs.shm.map (keeps_releasePid pid), hobjs.mq⟩
  | mqOpen name flags =>
    exact ⟨hobjs.shm, denotes_mqOpen hobjs.mq objects.nextSerial hfits⟩
  | mqUnlink name => exact ⟨hobjs.shm, denotes_mqUnlink hobjs.mq name⟩
  | mqSend handle data copied =>
    exact ⟨hobjs.shm, denotes_mqSend hobjs.mq handle data copied⟩
  | mqReceive handle size copied =>
    exact ⟨hobjs.shm, denotes_mqReceive hobjs.mq handle size copied⟩

/-- A use of a handle that succeeds acts on the object that every open which returned
the handle returned. -/
structure Objects.UsesDenoted (objects : Objects) : Prop where
  mmap : ∀ request pid placed mapped index serial,
    (request.handle.toNat, serial) ∈ objects.shmGrants →
    (Ipc.shmMmap objects.shm request pid placed mapped).1 = some index →
    serialAt objects.shm index = some serial
  send : ∀ handle data copied index serial, (UInt32.toNat handle, serial) ∈ objects.mqGrants →
    (Ipc.mqSend objects.mq handle data copied).1 = some index →
    serialAt objects.mq index = some serial
  receive : ∀ handle size copied index message serial,
    (UInt32.toNat handle, serial) ∈ objects.mqGrants →
    (Ipc.mqReceive objects.mq handle size copied).1 = some (index, message) →
    serialAt objects.mq index = some serial

lemma ofHandle_of_mmapObject {req : MmapRequest} (hobject : mmapObject objects req = some index) :
    ofHandle objects req.handle.toNat = some index := by
  simp only [mmapObject, ite_none_left_eq_some] at hobject
  obtain ⟨-, -, -, hobject⟩ := hobject
  split at hobject
  · cases hobject
  next found hfound =>
    obtain ⟨-, hindex⟩ := ite_none_left_eq_some.mp hobject
    rw [hfound, hindex]

lemma Objects.Denoted.usesDenoted {objects : Objects} (hobjs : objects.Denoted) :
    objects.UsesDenoted := by
  refine ⟨?_, ?_, ?_⟩
  · intro req pid placed mapped index serial hgrant huse
    refine hobjs.shm.serialAt_of_ofHandle hgrant ?_
    unfold Ipc.shmMmap at huse
    split at huse
    · cases huse
    next found hfound =>
      dsimp only at huse
      split at huse
      · cases huse
      split at huse
      · cases huse
        exact ofHandle_of_mmapObject hfound
      · cases huse
  · intro handle data copied index serial hgrant huse
    refine hobjs.mq.serialAt_of_ofHandle hgrant ?_
    rcases mqSend_cases objects.mq handle data copied with
      hnone | ⟨found, _, hfound, -, -, -, hsend⟩
    · rw [hnone] at huse
      cases huse
    · rw [hsend] at huse
      cases huse
      exact hfound
  · intro handle size copied index message serial hgrant huse
    refine hobjs.mq.serialAt_of_ofHandle hgrant ?_
    rcases mqReceive_cases objects.mq handle size copied with
      hnone | ⟨found, _, hfound, -, -, hreceive⟩
    · rw [hnone] at huse
      cases huse
    · rw [hreceive] at huse
      cases huse
      exact hfound

/-- In every run from boot in which objects are only created in slots that no handle was
given out for, a handle acts on the object it was returned for or fails. -/
theorem handles_denote_one_object (calls : List Call)
    (hfits : RunFits Objects.perform Objects.Fits .boot calls) :
    (run Objects.perform .boot calls).UsesDenoted := by
  apply Objects.Denoted.usesDenoted
  exact run_preserves Objects.Denoted (fun _ _ hinv hcall => hinv.perform hcall) ⟨.nil, .nil⟩ hfits

/-- Two objects, one of them unlinked while it is mapped, and two queues. -/
theorem handles_denote_one_object_pair : (run Objects.perform .boot
      [.shmOpen [97] 100 1 [(4096, true)], .shmMmap ⟨4096, 2, 1, 0⟩ 7 true 1, .shmUnlink [97],
        .shmOpen [98] 100 1 [(8192, true)], .mqOpen [97] 1, .mqSend 1 [5] true, .mqUnlink [97],
        .mqOpen [98] 1, .mqReceive 1 4 true]).UsesDenoted :=
  handles_denote_one_object _ (by decide +kernel)

/-- A second process opens an object under its own name after the first one was
unlinked: the first handle maps the second object. Likewise for queues. -/
theorem handles_denote_later_object : ¬(run Objects.perform .boot
        [.shmOpen [97] 100 1 [(4096, true)], .shmUnlink [97],
          .shmOpen [98] 100 1 [(8192, true)]]).UsesDenoted ∧
      ¬(run Objects.perform .boot
        [.mqOpen [97] 1, .mqUnlink [97], .mqOpen [98] 1]).UsesDenoted := by
  constructor
  · intro huses
    have hser := huses.mmap ⟨4096, 2, 1, 0⟩ 7 true 1 0 0 (by decide +kernel) (by decide +kernel)
    exact absurd hser (by decide +kernel)
  · intro huses
    have hser := huses.send 1 [5] true 0 0 (by decide +kernel) (by decide +kernel)
    exact absurd hser (by decide +kernel)

end NexOS.Ipc
