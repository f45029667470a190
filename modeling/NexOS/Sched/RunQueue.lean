import Mathlib

/-! # Run queue

The scheduler's run queue (`kernel/sched/runqueue.c`) over the policy functions of
`kernel/sched/sched_policy.c`: which slot is current, what a step makes of the
current process, which slot runs next, and what happens when none can. The queue
does not own the processes: a slot is a pointer, possibly null, and the processes
behind two slots are different ones.
-/

namespace NexOS.Sched

open Function

/-- The states of a process. -/
inductive ProcessState where
  | free
  | ready
  | running
  | sleeping
  | stopped
  | exited
  | waiting
  deriving DecidableEq, Repr

/-- The fields of a process that the scheduler reads and writes. -/
structure Process where
  state : ProcessState
  wakeTick : UInt32
  deriving DecidableEq, Repr

/-- `enum sched_runqueue_reason`. -/
inductive Reason where
  | preempt
  | yield
  | block
  | sleep
  | exit
  deriving DecidableEq, Repr

/-- `struct sched_runqueue`, with the policy's `g_sched_next_wake_tick`. -/
structure RunQueue where
  slots : List (Option Process)
  current : Nat
  active : UInt32
  completed : UInt32
  switches : UInt32
  nextWakeTick : UInt32
  deriving DecidableEq, Repr

/-! ## Policy -/

/-- `sched_policy_tick_before`: the difference is read as a signed number. -/
def tickBefore (lhs rhs : UInt32) : Bool := 2 ^ 31 ≤ (lhs - rhs).toNat

/-- The process can be switched to. -/
def processRunnable : Option Process → Bool
  | none => false
  | some process => process.state = .ready || process.state = .running

/-- `sched_policy_note_sleep`, on the earliest tick noted so far. -/
def noteSleep (nextWakeTick wakeTick : UInt32) : UInt32 :=
  if wakeTick = 0 then nextWakeTick
  else if nextWakeTick = 0 || tickBefore wakeTick nextWakeTick then wakeTick
  else nextWakeTick

/-- The loop of `sched_policy_wake_sleepers_in_slots`: the slots after it, the number
of processes woken and the earliest tick that is still to come. -/
def wakeSleepersLoop (currentTicks : UInt32) :
    List (Option Process) → UInt32 → UInt32 → List (Option Process) × UInt32 × UInt32
  | [], woke, next => ([], woke, next)
  | none :: rest, woke, next =>
    let (slots, result) := wakeSleepersLoop currentTicks rest woke next
    (none :: slots, result)
  | some process :: rest, woke, next =>
    if process.state ≠ .sleeping || process.wakeTick = 0 then
      let (slots, result) := wakeSleepersLoop currentTicks rest woke next
      (some process :: slots, result)
    else if !tickBefore currentTicks process.wakeTick then
      let (slots, result) := wakeSleepersLoop currentTicks rest (woke + 1) next
      (some { process with state := .ready, wakeTick := 0 } :: slots, result)
    else
      let next :=
        if next = 0 || tickBefore process.wakeTick next then process.wakeTick else next
      let (slots, result) := wakeSleepersLoop currentTicks rest woke next
      (some process :: slots, result)

/-- `sched_policy_select_next_in_slots`: round robin from the slot after the current
one, the current one last. -/
def selectNextInSlots (slots : List (Option Process)) (currentSlot : Nat) : Option Nat :=
  let capacity := slots.length
  let currentSlot := if capacity ≤ currentSlot then 0 else currentSlot
  ((List.range capacity).map fun offset => (currentSlot + (offset + 1)) % 2 ^ 32 % capacity).find?
    fun slot => processRunnable (slots.getD slot none)

/-- `sched_policy_apply_runqueue_transition`: the process and whether it completed. -/
def applyRunqueueTransition (process : Process) : Reason → Process × Bool
  | .preempt => ({ process with state := .ready }, false)
  | .yield => ({ process with state := .ready }, false)
  | .block => ({ process with state := .waiting }, false)
  | .sleep => ({ process with state := .sleeping }, false)
  | .exit => ({ process with state := .exited }, true)

/-- Without another process the current one goes on, unless it exits. -/
def restoreRunqueueCurrent (process : Process) (reason : Reason) : Option Process :=
  if reason = .exit then none else some { process with state := .running }

namespace RunQueue

/-! ## Queue operations -/

/-- The process in a slot. -/
def process? (queue : RunQueue) (slot : Nat) : Option Process := queue.slots.getD slot none

def setProcess (queue : RunQueue) (slot : Nat) (process : Process) : RunQueue :=
  { queue with slots := queue.slots.set slot (some process) }

/-- `sched_runqueue_init`, which ends in `sched_runqueue_reset`. -/
def init (slots : List (Option Process)) (nextWakeTick : UInt32) : RunQueue :=
  ⟨slots, 0, 0, 0, 0, nextWakeTick⟩

/-- The slot has a process. -/
def entryValid : Option Process → Bool
  | none => false
  | some process => process.state ≠ .free

/-- A process is counted as active. -/
def activate (queue : RunQueue) (slot : Nat) : Bool × RunQueue :=
  if entryValid (queue.process? slot) then (true, { queue with active := queue.active + 1 })
  else (false, queue)

/-- A process becomes the current one. -/
def start (queue : RunQueue) (slot : Nat) : Bool × RunQueue :=
  match queue.process? slot with
  | none => (false, queue)
  | some process =>
    if process.state = .ready || process.state = .running then
      (true, { queue with current := slot }.setProcess slot { process with state := .running })
    else (false, queue)

/-- Another process becomes the current one. -/
def switchTo (queue : RunQueue) (next : Nat) : RunQueue :=
  let queue := if next ≠ queue.current then
    { queue with current := next, switches := queue.switches + 1 } else queue
  match queue.process? next with
  | none => queue
  | some process => queue.setProcess next { process with state := .running }

/-- `sched_runqueue_reschedule`: the slot that runs next, if any. -/
def reschedule (queue : RunQueue) (reason : Reason) : Option Nat × RunQueue :=
  match queue.process? queue.current with
  | none => (none, queue)
  | some process =>
    let (process, completed) := applyRunqueueTransition process reason
    let queue := queue.setProcess queue.current process
    let queue := if completed then { queue with completed := queue.completed + 1 } else queue
    match selectNextInSlots queue.slots queue.current with
    | none =>
      match restoreRunqueueCurrent process reason with
      | some process => (some queue.current, queue.setProcess queue.current process)
      | none => (none, queue)
    | some next => (some next, queue.switchTo next)

/-- `sched_policy_wake_sleepers_in_slots` on the queue's slots. -/
def wakeSleepers (queue : RunQueue) (currentTicks : UInt32) : RunQueue :=
  let (slots, _, next) := wakeSleepersLoop currentTicks queue.slots 0 0
  { queue with slots := slots, nextWakeTick := next }

/-- The timer wakes sleepers and switches. -/
def tick (queue : RunQueue) (currentTicks : UInt32) : Option Nat × RunQueue :=
  (queue.wakeSleepers currentTicks).reschedule .preempt

/-- The current process gives way. -/
def yield (queue : RunQueue) : Option Nat × RunQueue := queue.reschedule .yield

/-- The current process waits. -/
def block (queue : RunQueue) : Option Nat × RunQueue := queue.reschedule .block

/-- The current process ends. -/
def exit (queue : RunQueue) : Option Nat × RunQueue := queue.reschedule .exit

/-- The current process gets its wake-up tick, never zero, and the policy notes it. -/
def setWakeTick (queue : RunQueue) (process : Process) (wakeTick : UInt32) : RunQueue :=
  let wakeTick := if wakeTick = 0 then 1 else wakeTick
  { queue.setProcess queue.current { process with wakeTick := wakeTick } with
    nextWakeTick := noteSleep queue.nextWakeTick wakeTick }

/-- A sleeper is woken early. -/
def cancelSleep (queue : RunQueue) (slot : Nat) : RunQueue :=
  match queue.process? slot with
  | none => queue
  | some process => queue.setProcess slot { process with state := .running, wakeTick := 0 }

/-- `sched_runqueue_sleep_until`: a sleep that leaves nothing else to run is undone. -/
def sleepUntil (queue : RunQueue) (wakeTick : UInt32) : Option Nat × RunQueue :=
  match queue.process? queue.current with
  | none => (none, queue)
  | some process =>
    let (next, after) := (queue.setWakeTick process wakeTick).reschedule .sleep
    if next = none || next = some queue.current then (none, after.cancelSleep queue.current)
    else (next, after)

/-- A waiting process is made ready, as `process_lifecycle_wake_file_waiter` does to
a process that has the file open. -/
def wakeWaiter (queue : RunQueue) (slot : Nat) : RunQueue :=
  match queue.process? slot with
  | none => queue
  | some process =>
    if process.state = .waiting then queue.setProcess slot { process with state := .ready }
    else queue

/-! ## What a slot holds after an operation -/

/-- The state of the process in a slot. -/
def stateAt (queue : RunQueue) (slot : Nat) : Option ProcessState :=
  (queue.process? slot).map Process.state

variable {queue : RunQueue} {slot : Nat} {process : Process} {reason : Reason}

lemma stateAt_of_process (hproc : queue.process? slot = some process) :
    queue.stateAt slot = some process.state := by
  rw [stateAt, hproc]
  rfl

lemma process?_setProcess (hproc : queue.process? slot ≠ none) (new : Process) (other : Nat) :
    (queue.setProcess slot new).process? other =
      if other = slot then some new else queue.process? other := by
  have hslot : slot < queue.slots.length := by
    by_contra hout
    exact hproc (by simp [process?, List.getElem?_eq_none (Nat.le_of_not_lt hout)])
  by_cases hother : other = slot
  · subst hother
    simp [process?, setProcess, List.getElem?_set_self hslot]
  · rw [if_neg hother]
    simp [process?, setProcess, List.getElem?_set_ne (Ne.symm hother)]

lemma stateAt_setProcess (hproc : queue.process? slot ≠ none) (new : Process) :
    (queue.setProcess slot new).stateAt = update queue.stateAt slot (some new.state) := by
  funext other
  rw [stateAt, process?_setProcess hproc, update_apply]
  split
  · rfl
  · rfl

/-- The state a step leaves the current process in before another one is chosen. -/
def target : Reason → ProcessState
  | .preempt => .ready
  | .yield => .ready
  | .block => .waiting
  | .sleep => .sleeping
  | .exit => .exited

/-- The process is ready or running. -/
def Runnable (state : Option ProcessState) : Prop := state = some .ready ∨ state = some .running

instance (state : Option ProcessState) : Decidable (Runnable state) :=
  inferInstanceAs (Decidable (_ ∨ _))

lemma runnable_stateAt_iff :
    processRunnable (queue.process? slot) = true ↔ Runnable (queue.stateAt slot) := by
  cases hproc : queue.process? slot with
  | none => simp [processRunnable, Runnable, stateAt, hproc]
  | some process => simp [processRunnable, Runnable, stateAt, hproc]

lemma runnable_of_selectNext {currentSlot next : Nat}
    (hnext : selectNextInSlots queue.slots currentSlot = some next) :
    Runnable (queue.stateAt next) := by
  rw [← runnable_stateAt_iff]
  exact List.find?_some (p := fun slot => processRunnable (queue.slots.getD slot none)) hnext

lemma switchTo_effect (hnext : Runnable (queue.stateAt slot)) :
    (queue.switchTo slot).current = slot ∧
      (queue.switchTo slot).stateAt = update queue.stateAt slot (some .running) := by
  obtain ⟨process, hproc⟩ : ∃ process, queue.process? slot = some process := by
    cases hproc : queue.process? slot with
    | none => simp [stateAt, hproc, Runnable] at hnext
    | some process => exact ⟨process, rfl⟩
  by_cases hslot : slot = queue.current
  · rw [switchTo, if_neg (not_not.mpr hslot)]
    simp only [hproc]
    exact ⟨hslot.symm, stateAt_setProcess (by simp [hproc]) _⟩
  · rw [switchTo, if_pos hslot]
    have hmoved : process? { queue with current := slot, switches := queue.switches + 1 } slot =
        some process := hproc
    simp only [hmoved]
    exact ⟨rfl, stateAt_setProcess (by simp [hmoved]) _⟩

/-- What a step can make of a queue with a process in the current slot: another slot
or the same one is chosen and runs, or nothing is runnable and the step is undone, or
nothing is runnable and the current process is gone. -/
inductive Rescheduled (queue : RunQueue) (reason : Reason) : Option Nat → RunQueue → Prop
  | switched {next : Nat} {after : RunQueue}
      (hnext : Runnable (update queue.stateAt queue.current (some (target reason)) next))
      (hcur : after.current = next)
      (hstates : after.stateAt = update (update queue.stateAt queue.current (some (target reason)))
          next (some .running)) :
      Rescheduled queue reason (some next) after
  | undone {after : RunQueue} (hreason : reason ≠ .exit) (hcur : after.current = queue.current)
      (hstates : after.stateAt = update queue.stateAt queue.current (some .running)) :
      Rescheduled queue reason (some queue.current) after
  | gone {after : RunQueue} (hreason : reason = .exit) (hcur : after.current = queue.current)
      (hstates : after.stateAt = update queue.stateAt queue.current (some (target reason))) :
      Rescheduled queue reason none after

variable (hcur : queue.process? queue.current = some process)

include hcur in
lemma rescheduled (reason : Reason) :
    Rescheduled queue reason (queue.reschedule reason).1 (queue.reschedule reason).2 := by
  have hstate : (applyRunqueueTransition process reason).1.state = target reason := by
    cases reason <;> rfl
  set moved := queue.setProcess queue.current (applyRunqueueTransition process reason).1 with hmoved
  set counted := if (applyRunqueueTransition process reason).2 then
    { moved with completed := moved.completed + 1 } else moved with hcounted
  -- the counter aside, the queue after the transition is `moved`
  have hslots : counted.slots = moved.slots := by
    rw [hcounted]
    split <;> rfl
  have hcount : counted.current = queue.current := by
    rw [hcounted]
    split <;> rfl
  have hpaused : counted.stateAt = update queue.stateAt queue.current (some (target reason)) := by
    have hsame : counted.stateAt = moved.stateAt := by
      funext slot
      simp only [stateAt, process?, hslots]
    rw [hsame, stateAt_setProcess (by simp [hcur]), hstate]
  have hafter : queue.reschedule reason =
      match selectNextInSlots counted.slots counted.current with
      | none =>
        match restoreRunqueueCurrent (applyRunqueueTransition process reason).1 reason with
        | some process => (some counted.current, counted.setProcess counted.current process)
        | none => (none, counted)
      | some next => (some next, counted.switchTo next) := by
    simp only [reschedule, hcur]
    rfl
  have hpresent : counted.process? counted.current ≠ none := by
    intro hnone
    have hgone := congrFun hpaused counted.current
    rw [stateAt, hnone, hcount] at hgone
    simp at hgone
  rw [hafter]
  cases hselect : selectNextInSlots counted.slots counted.current with
  | some next =>
    have hnext := runnable_of_selectNext hselect
    obtain ⟨hcur', hstates⟩ := switchTo_effect hnext
    exact .switched (hpaused ▸ hnext) hcur' (hpaused ▸ hstates)
  | none =>
    by_cases hexit : reason = .exit
    · simp only [restoreRunqueueCurrent, if_pos hexit]
      exact .gone hexit hcount hpaused
    · simp only [restoreRunqueueCurrent, if_neg hexit]
      rw [hcount]
      refine .undone hexit hcount ?_
      rw [stateAt_setProcess (hcount ▸ hpresent), hpaused]
      exact update_idem ..

lemma reschedule_of_absent (hcur : queue.process? queue.current = none) (reason : Reason) :
    (queue.reschedule reason).2 = queue := by
  simp only [reschedule, hcur]

include hcur in
lemma stateAt_setWakeTick
    (wakeTick : UInt32) : (queue.setWakeTick process wakeTick).stateAt = queue.stateAt := by
  have hpresent : queue.process? queue.current ≠ none := by simp [hcur]
  have hset := stateAt_setProcess hpresent
    { process with wakeTick := if wakeTick = 0 then 1 else wakeTick }
  rw [← stateAt_of_process hcur, update_eq_self] at hset
  exact hset

lemma stateAt_cancelSleep (hslot : queue.stateAt slot ≠ none) :
    (queue.cancelSleep slot).stateAt = update queue.stateAt slot (some .running) := by
  cases hproc : queue.process? slot with
  | none => exact absurd (by rw [stateAt, hproc]; rfl) hslot
  | some process =>
    simp only [cancelSleep, hproc]
    exact stateAt_setProcess (by simp [hproc]) _

lemma current_cancelSleep : (queue.cancelSleep slot).current = queue.current := by
  unfold cancelSleep
  split <;> rfl

include hcur in
/-- A sleep moves the queue as rescheduling does: undoing it twice is undoing it. -/
lemma rescheduled_sleepUntil (wakeTick : UInt32) :
    ∃ next, Rescheduled queue .sleep next (queue.sleepUntil wakeTick).2 := by
  have hstates := stateAt_setWakeTick hcur wakeTick
  set asleep := queue.setWakeTick process wakeTick with hasleep
  have hsame : asleep.current = queue.current := rfl
  obtain ⟨sleeper, hsleeper⟩ : ∃ sleeper, asleep.process? asleep.current = some sleeper := by
    have hstate := stateAt_of_process hcur
    rw [← hstates, stateAt, Option.map_eq_some_iff] at hstate
    obtain ⟨sleeper, hsleeper, -⟩ := hstate
    exact ⟨sleeper, hsleeper⟩
  have hsleep : queue.sleepUntil wakeTick =
      if (asleep.reschedule .sleep).1 = none || (asleep.reschedule .sleep).1 = some queue.current
      then (none, (asleep.reschedule .sleep).2.cancelSleep queue.current)
      else asleep.reschedule .sleep := by
    simp only [sleepUntil, hcur]
    rfl
  have hmoved := rescheduled hsleeper .sleep
  rw [hsleep]
  generalize asleep.reschedule .sleep = result at hmoved ⊢
  obtain ⟨next, after⟩ := result
  cases hmoved with
  | @switched next _ hnext hafter hafterStates =>
    rw [hstates, hsame] at hnext hafterStates
    have hother : next ≠ queue.current := by
      rintro rfl
      simp [target, Runnable] at hnext
    rw [if_neg (by simpa using hother)]
    exact ⟨some next, .switched hnext hafter hafterStates⟩
  | undone hreason hafter hafterStates =>
    rw [hstates, hsame] at hafterStates
    rw [if_pos (by simp [hsame])]
    refine ⟨_, .undone hreason (current_cancelSleep.trans hafter) ?_⟩
    rw [stateAt_cancelSleep (by simp [hafterStates]), hafterStates]
    exact update_idem ..
  | gone hreason => nomatch hreason

/-- The time of the sleeper has come. -/
def WakeDue (currentTicks : UInt32) (process : Process) : Prop :=
  process.state = .sleeping ∧ process.wakeTick ≠ 0 ∧
    tickBefore currentTicks process.wakeTick = false

instance (currentTicks : UInt32) (process : Process) : Decidable (WakeDue currentTicks process) :=
  inferInstanceAs (Decidable (_ ∧ _))

/-- What the timer makes of a process. -/
def woken (currentTicks : UInt32) (process : Process) : Process :=
  if WakeDue currentTicks process then { process with state := .ready, wakeTick := 0 } else process

lemma wakeSleepersLoop_slots (now : UInt32) (slots : List (Option Process)) (woke next : UInt32) :
    (wakeSleepersLoop now slots woke next).1 = slots.map (Option.map (woken now)) := by
  induction slots generalizing woke next with
  | nil => rfl
  | cons slot rest ih =>
    rcases slot with _ | process
    · simp [wakeSleepersLoop, ih]
    rw [wakeSleepersLoop]
    by_cases hskip : process.state ≠ .sleeping ∨ process.wakeTick = 0
    · have hkeep : woken now process = process := by
        rw [woken, if_neg]
        rintro ⟨hasleep, htick, -⟩
        exact hskip.elim (fun h => h hasleep) htick
      rw [if_pos (by simpa using hskip)]
      simp [ih, hkeep]
    rw [not_or, not_not] at hskip
    rw [if_neg (by simpa using hskip)]
    cases hbefore : tickBefore now process.wakeTick with
    | false =>
      have hwake : woken now process =
          { process with state := .ready, wakeTick := 0 } := by
        rw [woken, if_pos ⟨hskip.1, hskip.2, hbefore⟩]
      simp [ih, hwake]
    | true =>
      have hkeep : woken now process = process := by
        rw [woken, if_neg]
        rintro ⟨-, -, hdue⟩
        simp [hdue] at hbefore
      simp [ih, hkeep]

lemma process?_wakeSleepers (now : UInt32) :
    (queue.wakeSleepers now).process? slot = (queue.process? slot).map (woken now) := by
  simp only [wakeSleepers, process?, wakeSleepersLoop_slots, List.getD_eq_getElem?_getD,
    List.getElem?_map]
  cases queue.slots[slot]? with
  | none => rfl
  | some entry => rfl

lemma stateAt_woken (queue : RunQueue) (slot : Nat) (now : UInt32) :
    (queue.wakeSleepers now).stateAt slot = queue.stateAt slot ∨
      (∃ process, queue.process? slot = some process ∧ WakeDue now process ∧
        (queue.wakeSleepers now).stateAt slot = some .ready) := by
  rcases hproc : queue.process? slot with _ | process
  · simp [stateAt, process?_wakeSleepers, hproc]
  by_cases hdue : WakeDue now process
  · simp [stateAt, process?_wakeSleepers, hproc, woken, hdue]
  · simp [stateAt, process?_wakeSleepers, hproc, woken, hdue]

end RunQueue

end NexOS.Sched
