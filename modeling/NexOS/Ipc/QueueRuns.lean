import NexOS.Ipc.HandleRuns
import NexOS.Lib.Ring

/-! # The messages of a queue

Sends and receives of any processes on any queues. What was received from a queue and
then what is in its ring are the messages that were sent to it.
-/

namespace NexOS.Ipc

open NamedSlots GuardedRuns Function NexOS.Ring

namespace QueueBody

/-- The bytes in a place of the ring. -/
def slotBytes (body : QueueBody) (i : Nat) : List UInt8 := (body.messages.getD i ⟨0, []⟩).bytes

/-- The messages in the queue, oldest first. -/
def pending (body : QueueBody) : List (List UInt8) :=
  contents body.slotBytes 16 body.head.toNat body.count.toNat

/-- The indices of a queue are within its ring. -/
structure RingOk (body : QueueBody) : Prop where
  head_lt : body.head.toNat < 16
  count_le : body.count.toNat ≤ 16
  length : body.messages.length = 16
  sizes : ∀ message ∈ body.messages, message.size.toNat = message.data.length

variable {body : QueueBody}

lemma RingOk.push (hok : body.RingOk) (hroom : body.count ≠ 16) {data : List UInt8}
    (hdata : data.length ≤ 256) :
    (body.push data).RingOk ∧ (body.push data).pending = body.pending ++ [data] := by
  have hlt : body.count.toNat < 16 :=
    lt_of_le_of_ne hok.count_le fun heq => hroom (UInt8.toNat_inj.mp heq)
  have hcount : (body.push data).count.toNat = body.count.toNat + 1 := by
    simp only [QueueBody.push, UInt8.toNat_add, UInt8.toNat_one]
    omega
  have hslots : (body.push data).slotBytes =
      update body.slotBytes ((body.head.toNat + body.count.toNat) % 16) data := by
    have htail : (body.head.toNat + body.count.toNat) % 16 < body.messages.length := by
      rw [hok.length]
      exact Nat.mod_lt _ (by decide)
    have hsize : data.length.toUInt16.toNat = data.length :=
      UInt16.toNat_ofNat_of_lt' (hdata.trans_lt (by decide))
    funext i
    by_cases hi : i = (body.head.toNat + body.count.toNat) % 16
    · simp [slotBytes, QueueBody.push, hi, htail, Message.bytes, hsize]
    · simp [slotBytes, QueueBody.push, update_of_ne hi, List.getElem?_set_ne (Ne.symm hi)]
  refine ⟨⟨hok.head_lt, hcount ▸ hlt, by simp [QueueBody.push, hok.length], ?_⟩, ?_⟩
  · intro message hmem
    rcases List.mem_or_eq_of_mem_set hmem with hmem | rfl
    · exact hok.sizes message hmem
    · exact UInt16.toNat_ofNat_of_lt' (hdata.trans_lt (by decide))
  rw [pending, hcount, hslots]
  exact contents_push hlt data

lemma RingOk.pop (hok : body.RingOk) (hcount : body.count ≠ 0) :
    body.pop.RingOk ∧ body.front.bytes :: body.pop.pending = body.pending := by
  obtain ⟨hhead, hle, hlen, hsizes⟩ := hok
  have hpos : body.count.toNat ≠ 0 := fun hzero => hcount (UInt8.toNat_inj.mp hzero)
  have hless : body.pop.count.toNat + 1 = body.count.toNat := by
    simp only [QueueBody.pop, UInt8.toNat_sub, UInt8.toNat_one]
    omega
  have hnext : body.pop.head.toNat = (body.head.toNat + 1) % 16 :=
    UInt8.toNat_ofNat_of_lt' ((Nat.mod_lt _ (by decide)).trans (by decide))
  refine ⟨⟨by omega, by omega, hlen, hsizes⟩, ?_⟩
  rw [pending, pending, ← hless, contents_pop hhead, hnext]
  rfl

/-- As many bytes are copied as are reported. -/
lemma RingOk.length_front (hok : body.RingOk) :
    body.front.bytes.length = body.front.size.toNat := by
  have hlt : body.head.toNat < body.messages.length := by
    rw [hok.length]
    exact hok.head_lt
  have hmem : body.front ∈ body.messages := by
    rw [front, List.getD_eq_getElem _ _ hlt]
    exact List.getElem_mem hlt
  rw [Message.bytes, List.length_take, hok.sizes _ hmem, Nat.min_self]

end QueueBody

lemma MessageQueue.cleared_pending : cleared.body.RingOk ∧ cleared.body.pending = [] :=
  ⟨by constructor <;> decide, rfl⟩

/-- A queue that is destroyed is empty. -/
lemma MessageQueue.destroyIfUnlinkedEmpty_pending {queue : MessageQueue} (hok : queue.body.RingOk) :
    queue.destroyIfUnlinkedEmpty.body.RingOk ∧
      queue.destroyIfUnlinkedEmpty.body.pending = queue.body.pending := by
  unfold MessageQueue.destroyIfUnlinkedEmpty
  split
  next hempty =>
    have hzero : queue.body.count = 0 := by simp_all
    exact ⟨cleared_pending.1, by rw [cleared_pending.2]; simp [QueueBody.pending, hzero, contents]⟩
  · exact ⟨hok, rfl⟩

/-! ## Runs -/

/-- The objects, and for each slot the messages sent to its queue and received from it. -/
structure Traffic where
  objects : Objects
  sent : Nat → List (List UInt8)
  received : Nat → List (List UInt8)

def Traffic.boot : Traffic := ⟨.boot, fun _ => [], fun _ => []⟩

/-- A call, with what it takes from its caller or hands over. A new queue starts with no records. -/
def Traffic.perform (t : Traffic) (call : Call) : Traffic where
  objects := t.objects.perform call
  sent := match call with
    | .mqOpen name flags => (mqOpenSlot t.objects.mq name flags).elim t.sent (update t.sent · [])
    | .mqSend handle data copied => (mqSend t.objects.mq handle data copied).1.elim t.sent
        fun index => update t.sent index (t.sent index ++ [data])
    | _ => t.sent
  received := match call with
    | .mqOpen name flags =>
      (mqOpenSlot t.objects.mq name flags).elim t.received (update t.received · [])
    | .mqReceive handle size copied => (mqReceive t.objects.mq handle size copied).1.elim t.received
        fun (index, _, bytes) => update t.received index (t.received index ++ [bytes])
    | _ => t.received

/-- What was received from a queue and what is in its ring are what was sent to it. -/
def InOrder (queues : QueueTable) (sent received : Nat → List (List UInt8)) : Prop :=
  ∀ index queue, queues[index]? = some queue →
    queue.body.RingOk ∧ received index ++ queue.body.pending = sent index

variable {queues : QueueTable} {sent received : Nat → List (List UInt8)}

/-- One queue changes together with its records. -/
lemma InOrder.modify (hqueues : InOrder queues sent received) (index : Nat)
    {change : MessageQueue → MessageQueue} {sent' received' : List (List UInt8)}
    (hchg : ∀ queue, queues[index]? = some queue →
      (change queue).body.RingOk ∧ received' ++ (change queue).body.pending = sent') :
    InOrder (queues.modify index change) (update sent index sent')
      (update received index received') := by
  intro other queue hqueue
  rw [List.getElem?_modify] at hqueue
  obtain ⟨old, hold, rfl⟩ := Option.map_eq_some_iff.mp hqueue
  by_cases hother : index = other
  · subst hother
    simpa using hchg old hold
  · simpa [hother, update_of_ne (Ne.symm hother)] using hqueues other old hold

lemma mqOpen_snd (queues : QueueTable) (serial : Nat) (name : List UInt8) (flags : UInt32) :
    (mqOpen queues serial name flags).2 = (mqOpenSlot queues name flags).elim queues
      (queues.set · ⟨true, true, name, serial, MessageQueue.cleared.body⟩) := by
  unfold mqOpen
  by_cases hname : ipcNameValid name
  · cases hfound : byName queues name with
    | none => cases mqOpenSlot queues name flags <;> simp [hname, MessageQueue.cleared]
    | some index => simp [hname, mqOpenSlot, hfound, apply_ite Prod.snd]
  · simp [hname, mqOpenSlot]

lemma InOrder.perform {t : Traffic} (ht : InOrder t.objects.mq t.sent t.received) (call : Call) :
    InOrder (t.perform call).objects.mq (t.perform call).sent (t.perform call).received := by
  cases call with
  | mqOpen name flags =>
    simp only [Traffic.perform, Objects.perform, mqOpen_snd]
    cases mqOpenSlot t.objects.mq name flags with
    | none => exact ht
    | some index =>
      rw [Option.elim_some, List.set_eq_modify]
      exact ht.modify index fun _ _ => MessageQueue.cleared_pending
  | mqUnlink name =>
    simp only [Traffic.perform, Objects.perform, mqUnlink]
    split
    · exact ht
    split
    · exact ht
    next index _ =>
      rw [← update_eq_self index t.sent, ← update_eq_self index t.received]
      refine ht.modify index fun queue hqueue => ?_
      obtain ⟨hok, hsent⟩ := ht index queue hqueue
      obtain ⟨hok', hsame⟩ := @MessageQueue.destroyIfUnlinkedEmpty_pending
        { queue with linked := false, name := [] } hok
      exact ⟨hok', by rw [hsame]; exact hsent⟩
  | mqSend handle data copied =>
    simp only [Traffic.perform, Objects.perform]
    rcases mqSend_cases t.objects.mq handle data copied with
      hnone | ⟨index, _, -, hqueue, hdata, hroom, hsend⟩
    · rw [hnone]
      exact ht
    rw [hsend, ← update_eq_self index t.received]
    refine ht.modify index fun queue hsame => ?_
    cases hqueue.symm.trans hsame
    obtain ⟨hok, hsent⟩ := ht index _ hqueue
    obtain ⟨hpushed, hpend⟩ := hok.push hroom hdata
    exact ⟨hpushed, by rw [hpend, ← List.append_assoc, hsent]⟩
  | mqReceive handle size copied =>
    simp only [Traffic.perform, Objects.perform]
    rcases mqReceive_cases t.objects.mq handle size copied with
      hnone | ⟨index, front, -, hqueue, hcount, hreceive⟩
    · rw [hnone]
      exact ht
    rw [hreceive, ← update_eq_self index t.sent]
    refine ht.modify index fun queue hsame => ?_
    cases hqueue.symm.trans hsame
    obtain ⟨hok, hsent⟩ := ht index _ hqueue
    obtain ⟨hpopped, hpend⟩ := hok.pop hcount
    obtain ⟨hok', hkept⟩ := @MessageQueue.destroyIfUnlinkedEmpty_pending
      { front with body := front.body.pop } hpopped
    refine ⟨hok', ?_⟩
    rw [hkept, ← hsent, ← hpend, List.append_assoc, List.singleton_append]
  | _ => exact ht

/-- Whatever calls are made from boot on, the messages that receivers were given of a queue are
the first part of what was sent to it, the rest being in its ring. A call that fails leaves all
queues as they are. A message is refused by a full queue and taken by one with room, and a
receiver with a large enough buffer is given all bytes of the oldest message. -/
theorem queues_in_order (calls : List Call) :
    let t := run Traffic.perform .boot calls
    (∀ index queue, t.objects.mq[index]? = some queue →
        t.received index ++ queue.body.pending = t.sent index) ∧
      (∀ handle size copied, (mqReceive t.objects.mq handle size copied).1 = none →
        (mqReceive t.objects.mq handle size copied).2 = t.objects.mq) ∧
      (∀ handle data copied, (mqSend t.objects.mq handle data copied).1 = none →
        (mqSend t.objects.mq handle data copied).2 = t.objects.mq) ∧
      ∀ handle index queue, ofHandle t.objects.mq handle.toNat = some index →
        t.objects.mq[index]? = some queue →
        (∀ data copied, (mqSend t.objects.mq handle data copied).1 = some index ↔
          copied = true ∧ data ≠ [] ∧ data.length ≤ 256 ∧ queue.body.count ≠ 16) ∧
        ∀ size oldest rest, queue.body.pending = oldest :: rest → size ≠ 0 →
          oldest.length ≤ size.toNat → (mqReceive t.objects.mq handle size true).1 =
            some (index, oldest.length.toUInt16, oldest) := by
  intro t
  have ht : InOrder t.objects.mq t.sent t.received :=
    run_invariant (fun t : Traffic => InOrder t.objects.mq t.sent t.received)
      (fun _ call ht => ht.perform call) (fun _ _ hqueue => ?_) calls
  · refine ⟨fun index queue hqueue => (ht index queue hqueue).2, fun handle size copied hfail => ?_,
      fun handle data copied hfail => ?_, fun handle index queue hhandle hqueue =>
        ⟨fun data copied => ?_, fun size oldest rest hpend hsize hlen => ?_⟩⟩
    · rcases mqReceive_cases t.objects.mq handle size copied with hnone | ⟨_, _, -, -, -, hreceive⟩
      · rw [hnone]
      · rw [hreceive] at hfail
        cases hfail
    · rcases mqSend_cases t.objects.mq handle data copied with
        hnone | ⟨_, _, -, -, -, -, hsend⟩
      · rw [hnone]
      · rw [hsend] at hfail
        cases hfail
    · simp only [mqSend, hhandle, hqueue]
      split_ifs with hbad
      · simp only [Option.map_some, Option.getD_some, Bool.or_eq_true, decide_eq_true_eq,
          Bool.not_eq_true'] at hbad
        refine iff_of_false (by simp) fun hgood => ?_
        rcases hbad with ((hbad | hbad) | hbad) | hbad
        · exact absurd hgood.1 (by simp [hbad])
        · exact hgood.2.1 hbad
        · exact absurd hgood.2.2.1 (not_le.mpr hbad)
        · exact hgood.2.2.2 hbad
      · simp_all
    · obtain ⟨hok, -⟩ := ht index queue hqueue
      have hcount : queue.body.count ≠ 0 := by
        intro hzero
        simp [QueueBody.pending, contents, hzero] at hpend
      obtain ⟨rfl, -⟩ := List.cons.inj ((hok.pop hcount).2.trans hpend)
      rw [hok.length_front] at hlen ⊢
      simp [mqReceive, hhandle, hqueue, hsize, hcount, not_lt.mpr hlen]
  · rw [List.eq_of_mem_replicate (List.mem_of_getElem? hqueue)]
    exact MessageQueue.cleared_pending

end NexOS.Ipc
