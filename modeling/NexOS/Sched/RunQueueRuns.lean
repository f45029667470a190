import NexOS.Sched.RunQueue
import NexOS.Lib.GuardedRuns

/-! # Runs of the run queue

A run takes the queue's operations in any order, with rounds of wake-ups between
them. Only the current process runs, a process that left does not come back, and a
blocked one needs a wake-up, as long as two things hold of the callers: no process
is started while another one runs, and no step is taken in the name of a current
process that has left or is blocked. The queue checks neither. When nothing is
runnable after an exit the current slot stays on the process that left, and the
next step makes it ready.
-/

namespace NexOS.Sched

open Function GuardedRuns

/-- The operations of the queue and the wake-ups around it. -/
inductive Step where
  | activate (slot : Nat)
  | start (slot : Nat)
  | tick (currentTicks : UInt32)
  | yield
  | block
  | sleepUntil (wakeTick : UInt32)
  | exit
  | wakeSleepers (currentTicks : UInt32)
  | wakeWaiter (slot : Nat)
  deriving DecidableEq, Repr

namespace RunQueue

/-- One call on the run queue. -/
def step (queue : RunQueue) : Step → RunQueue
  | .activate slot => (queue.activate slot).2
  | .start slot => (queue.start slot).2
  | .tick currentTicks => (queue.tick currentTicks).2
  | .yield => queue.yield.2
  | .block => queue.block.2
  | .sleepUntil wakeTick => (queue.sleepUntil wakeTick).2
  | .exit => queue.exit.2
  | .wakeSleepers currentTicks => queue.wakeSleepers currentTicks
  | .wakeWaiter slot => queue.wakeWaiter slot

/-- The process waits, sleeps or is gone. -/
def Halted (state : Option ProcessState) : Prop :=
  state = some .waiting ∨ state = some .sleeping ∨ state = some .exited

instance (state : Option ProcessState) : Decidable (Halted state) :=
  inferInstanceAs (Decidable (_ ∨ _))

lemma Halted.not_runnable {state : Option ProcessState} (hhalt : Halted state) :
    ¬Runnable state := by
  rcases hhalt with rfl | rfl | rfl <;> decide

/-- A process is started only when no other one runs, and a step is taken for the
current process only when that is neither blocked nor gone. -/
def Fits (queue : RunQueue) : Step → Prop
  | .start slot => Runnable (queue.stateAt slot) → slot ≠ queue.current →
      queue.stateAt queue.current ≠ some .running
  | .tick _ => ¬Halted (queue.stateAt queue.current)
  | .yield => ¬Halted (queue.stateAt queue.current)
  | .block => ¬Halted (queue.stateAt queue.current)
  | .sleepUntil _ => ¬Halted (queue.stateAt queue.current)
  | _ => True

instance (queue : RunQueue) : (next : Step) → Decidable (queue.Fits next)
  | .start _ => inferInstanceAs (Decidable (_ → _))
  | .tick _ | .yield | .block | .sleepUntil _ => inferInstanceAs (Decidable (¬_))
  | .activate _ | .exit | .wakeSleepers _ | .wakeWaiter _ => inferInstanceAs (Decidable True)

/-- Only the current process is running. -/
def RunningIsCurrent (queue : RunQueue) : Prop :=
  ∀ slot, queue.stateAt slot = some .running → slot = queue.current

/-- The step wakes the process. -/
def Wakes (slot : Nat) (queue : RunQueue) : Step → Prop
  | .tick currentTicks => ∃ process, queue.process? slot = some process ∧
      WakeDue currentTicks process
  | .wakeSleepers currentTicks => ∃ process, queue.process? slot = some process ∧
      WakeDue currentTicks process
  | .wakeWaiter woken => woken = slot ∧ queue.stateAt slot = some .waiting
  | _ => False

variable {queue after : RunQueue} {slot : Nat} {reason : Reason} {next : Option Nat}

/-! ## Rescheduling -/

lemma Rescheduled.runningIsCurrent (hmoved : Rescheduled queue reason next after)
    (hqueue : queue.RunningIsCurrent) : after.RunningIsCurrent := by
  intro slot hrunning
  -- whatever ran before was current, and the current process was paused first
  have hothers : ∀ state, slot ≠ queue.current →
      update queue.stateAt queue.current state slot ≠ some .running := by
    intro state hslot hrun
    rw [update_of_ne hslot] at hrun
    exact hslot (hqueue slot hrun)
  cases hmoved with
  | @switched chosen _ hnext hcur hstates =>
    rw [hcur]
    by_contra hslot
    rw [hstates, update_of_ne hslot] at hrunning
    by_cases hpaused : slot = queue.current
    · rw [hpaused, update_self] at hrunning
      cases reason <;> cases hrunning
    · exact hothers _ hpaused hrunning
  | undone _ hcur hstates =>
    rw [hcur]
    by_contra hslot
    rw [hstates] at hrunning
    exact hothers _ hslot hrunning
  | gone _ hcur hstates =>
    rw [hcur]
    by_contra hslot
    rw [hstates] at hrunning
    exact hothers _ hslot hrunning

/-- A process that is not current and cannot be chosen is left alone. -/
lemma Rescheduled.stateAt_of_ne (hmoved : Rescheduled queue reason next after)
    (hslot : slot ≠ queue.current) (hidle : ¬Runnable (queue.stateAt slot)) :
    after.stateAt slot = queue.stateAt slot := by
  cases hmoved with
  | @switched chosen _ hnext hcur hstates =>
    have hchosen : slot ≠ chosen := by
      rintro rfl
      rw [update_of_ne hslot] at hnext
      exact hidle hnext
    rw [hstates, update_of_ne hchosen, update_of_ne hslot]
  | undone _ _ hstates => rw [hstates, update_of_ne hslot]
  | gone _ _ hstates => rw [hstates, update_of_ne hslot]

lemma Rescheduled.stateAt_exit (hmoved : Rescheduled queue .exit next after) :
    after.stateAt queue.current = some .exited := by
  cases hmoved with
  | @switched chosen _ hnext hcur hstates =>
    have hchosen : queue.current ≠ chosen := by
      rintro rfl
      simp [target, Runnable] at hnext
    rw [hstates, update_of_ne hchosen, update_self]
    rfl
  | undone hreason => exact absurd rfl hreason
  | gone _ _ hstates =>
    rw [hstates, update_self]
    rfl

/-- Rescheduling does nothing when the current slot is empty. -/
lemma reschedule_moves (queue : RunQueue) (reason : Reason) : (queue.reschedule reason).2 = queue ∨
      ∃ next, Rescheduled queue reason next (queue.reschedule reason).2 := by
  cases hcur : queue.process? queue.current with
  | none => exact .inl (reschedule_of_absent hcur reason)
  | some process => exact .inr ⟨_, rescheduled hcur reason⟩

lemma sleepUntil_moves (queue : RunQueue) (wakeTick : UInt32) :
    (queue.sleepUntil wakeTick).2 = queue ∨
      ∃ next, Rescheduled queue .sleep next (queue.sleepUntil wakeTick).2 := by
  cases hcur : queue.process? queue.current with
  | none =>
    left
    simp only [sleepUntil, hcur]
  | some process => exact .inr (rescheduled_sleepUntil hcur wakeTick)

/-! ## The other operations -/

lemma start_cases (queue : RunQueue) (slot : Nat) :
    (queue.start slot).2 = queue ∨ (Runnable (queue.stateAt slot) ∧
      (queue.start slot).2.current = slot ∧
      (queue.start slot).2.stateAt = update queue.stateAt slot (some .running)) := by
  rcases hproc : queue.process? slot with _ | process
  · simp [start, hproc]
  by_cases hstate : process.state = .ready ∨ process.state = .running
  · right
    have hpresent : process? { queue with current := slot } slot ≠ none := by
      change queue.process? slot ≠ none
      simp [hproc]
    have hset := stateAt_setProcess hpresent { process with state := .running }
    simp only [start, hproc]
    rw [if_pos (by simpa using hstate)]
    exact ⟨by simpa [stateAt, hproc, Runnable] using hstate, rfl, hset⟩
  · left
    simp only [start, hproc]
    rw [if_neg (by simpa using hstate)]

lemma wakeWaiter_cases (queue : RunQueue) (slot : Nat) :
    queue.wakeWaiter slot = queue ∨ (queue.stateAt slot = some .waiting ∧
      (queue.wakeWaiter slot).current = queue.current ∧
      (queue.wakeWaiter slot).stateAt = update queue.stateAt slot (some .ready)) := by
  rcases hproc : queue.process? slot with _ | process
  · simp [wakeWaiter, hproc]
  by_cases hstate : process.state = .waiting
  · right
    simp only [wakeWaiter, hproc, if_pos hstate]
    exact ⟨by simp [stateAt, hproc, hstate], rfl, stateAt_setProcess (by simp [hproc]) _⟩
  · left
    simp only [wakeWaiter, hproc, if_neg hstate]

lemma stateAt_activate (queue : RunQueue) (slot : Nat) :
    (queue.activate slot).2.current = queue.current ∧
      (queue.activate slot).2.stateAt = queue.stateAt := by
  unfold activate
  split
  · exact ⟨rfl, rfl⟩
  · exact ⟨rfl, rfl⟩

variable (hqueue : queue.RunningIsCurrent) {next : Step}

include hqueue

lemma RunningIsCurrent.wakeSleepers (now : UInt32) : (queue.wakeSleepers now).RunningIsCurrent := by
  intro slot hrun
  rcases queue.stateAt_woken slot now with hsame | ⟨_, _, _, hready⟩
  · exact hqueue slot (hsame ▸ hrun)
  · simp [hready] at hrun

/-! ## Steps -/

lemma RunningIsCurrent.reschedule (reason : Reason) :
    (queue.reschedule reason).2.RunningIsCurrent := by
  rcases queue.reschedule_moves reason with hsame | ⟨_, hmoved⟩
  · rwa [hsame]
  · exact hmoved.runningIsCurrent hqueue

/-- A step leaves at most the current process running. -/
lemma RunningIsCurrent.step (hfits : queue.Fits next) : (queue.step next).RunningIsCurrent := by
  cases next with
  | activate slot =>
    obtain ⟨hcurrent, hstates⟩ := queue.stateAt_activate slot
    intro other hrun
    rw [RunQueue.step, hstates] at hrun
    rw [RunQueue.step, hcurrent]
    exact hqueue other hrun
  | start slot =>
    rcases queue.start_cases slot with hsame | ⟨hrunn, hcurrent, hstates⟩
    · rwa [RunQueue.step, hsame]
    intro other hrun
    rw [RunQueue.step, hcurrent]
    by_contra hother
    rw [RunQueue.step, hstates, update_of_ne hother] at hrun
    have hcur := hqueue other hrun
    subst hcur
    exact hfits hrunn (Ne.symm hother) hrun
  | tick now => exact (hqueue.wakeSleepers now).reschedule .preempt
  | yield => exact hqueue.reschedule .yield
  | block => exact hqueue.reschedule .block
  | sleepUntil wakeTick =>
    rcases queue.sleepUntil_moves wakeTick with hsame | ⟨_, hmoved⟩
    · rwa [RunQueue.step, hsame]
    · exact hmoved.runningIsCurrent hqueue
  | exit => exact hqueue.reschedule .exit
  | wakeSleepers now => exact hqueue.wakeSleepers now
  | wakeWaiter slot =>
    rcases queue.wakeWaiter_cases slot with hsame | ⟨_, hcurrent, hstates⟩
    · rwa [RunQueue.step, hsame]
    intro other hrun
    rw [RunQueue.step, hcurrent]
    rw [RunQueue.step, hstates, update_apply] at hrun
    split at hrun
    · cases hrun
    · exact hqueue other hrun

omit hqueue

/-- A halted process that is not current stays as it is when another one is chosen. -/
lemma stateAt_reschedule_of_halted (hslot : slot ≠ queue.current)
    (hhalt : Halted (queue.stateAt slot)) (reason : Reason) :
    (queue.reschedule reason).2.stateAt slot = queue.stateAt slot := by
  rcases queue.reschedule_moves reason with hsame | ⟨_, hmoved⟩
  · rw [hsame]
  · exact hmoved.stateAt_of_ne hslot hhalt.not_runnable

/-- What a step makes of a halted process: nothing, unless it wakes the process or is
the exit of the current one. -/
lemma stateAt_step_of_halted (hhalt : Halted (queue.stateAt slot)) (hfits : queue.Fits next) :
    (queue.step next).stateAt slot = queue.stateAt slot ∨ queue.Wakes slot next ∨
      (queue.step next).stateAt slot = some .exited := by
  have hother : ¬Halted (queue.stateAt queue.current) → slot ≠ queue.current := by
    rintro hcur rfl
    exact hcur hhalt
  cases next with
  | activate other => exact .inl (congrFun (queue.stateAt_activate other).2 slot)
  | start other =>
    left
    rcases queue.start_cases other with hsame | ⟨hrunn, _, hstates⟩
    · rw [RunQueue.step, hsame]
    have hne : slot ≠ other := by
      rintro rfl
      exact hhalt.not_runnable hrunn
    rw [RunQueue.step, hstates, update_of_ne hne]
  | tick now =>
    rcases queue.stateAt_woken slot now with
      hsame | ⟨process, hproc, hdue, _⟩
    · left
      rw [← hsame] at hhalt ⊢
      exact @stateAt_reschedule_of_halted (queue.wakeSleepers now) _ (hother hfits) hhalt .preempt
    · exact .inr (.inl ⟨process, hproc, hdue⟩)
  | yield => exact .inl (stateAt_reschedule_of_halted (hother hfits) hhalt .yield)
  | block => exact .inl (stateAt_reschedule_of_halted (hother hfits) hhalt .block)
  | sleepUntil wakeTick =>
    left
    rcases queue.sleepUntil_moves wakeTick with hsame | ⟨_, hmoved⟩
    · rw [RunQueue.step, hsame]
    · exact hmoved.stateAt_of_ne (hother hfits) hhalt.not_runnable
  | exit =>
    by_cases hslot : slot = queue.current
    · rcases queue.reschedule_moves .exit with hsame | ⟨_, hmoved⟩
      · left
        rw [RunQueue.step, RunQueue.exit, hsame]
      · right; right
        rw [hslot]
        exact hmoved.stateAt_exit
    · exact .inl (stateAt_reschedule_of_halted hslot hhalt .exit)
  | wakeSleepers now =>
    rcases queue.stateAt_woken slot now with
      hsame | ⟨process, hproc, hdue, _⟩
    · exact .inl hsame
    · exact .inr (.inl ⟨process, hproc, hdue⟩)
  | wakeWaiter other =>
    rcases queue.wakeWaiter_cases other with hsame | ⟨hwaiting, _, hstates⟩
    · left
      rw [RunQueue.step, hsame]
    · by_cases hslot : slot = other
      · subst hslot
        exact .inr (.inl ⟨rfl, hwaiting⟩)
      · left
        rw [RunQueue.step, hstates, update_of_ne hslot]

variable (hexit : queue.stateAt slot = some .exited)

include hexit

lemma not_wakes_of_exited (next : Step) : ¬queue.Wakes slot next := by
  have hasleep : ∀ now, ¬∃ process, queue.process? slot = some process ∧ WakeDue now process := by
    rintro now ⟨process, hproc, hsleeping, _⟩
    rw [stateAt_of_process hproc, hsleeping] at hexit
    cases hexit
  cases next with
  | tick now => exact hasleep now
  | wakeSleepers now => exact hasleep now
  | wakeWaiter other =>
    rintro ⟨-, hwaiting⟩
    rw [hwaiting] at hexit
    cases hexit
  | _ => exact id

/-- A process that has left stays away. -/
lemma stateAt_step_of_exited
    (hfits : queue.Fits next) : (queue.step next).stateAt slot = some .exited := by
  rcases stateAt_step_of_halted (.inr (.inr hexit)) hfits with hsame | hwakes | hgone
  · exact hsame.trans hexit
  · exact absurd hwakes (not_wakes_of_exited hexit next)
  · exact hgone

omit hexit

/-! ## Runs -/

/-- The discipline a run of the queue is to keep, seen from its last state: only the
current process runs; a process that took the exit step cannot run; and a process
that was blocked and can run again was woken in between. -/
structure Disciplined (queue : RunQueue) (steps : List Step) : Prop where
  running : (run step queue steps).RunningIsCurrent
  exited : ∀ before after process, steps = before ++ Step.exit :: after →
    (run step queue before).process? (run step queue before).current = some process →
    ¬Runnable ((run step queue steps).stateAt (run step queue before).current)
  blocked : ∀ before after slot, steps = before ++ after →
    ((run step queue before).stateAt slot = some .waiting ∨
      (run step queue before).stateAt slot = some .sleeping) →
    Runnable ((run step queue steps).stateAt slot) →
    ∃ between next rest, after = between ++ next :: rest ∧
      (run step queue (before ++ between)).Wakes slot next

include hexit in
lemma run_exited {steps : List Step} (hfits : RunFits step Fits queue steps) :
    (run step queue steps).stateAt slot = some .exited :=
  run_preserves (fun queue => queue.stateAt slot = some .exited)
    (fun _ _ hinv hnext => stateAt_step_of_exited hinv hnext) hexit hfits

lemma run_halted {steps : List Step} (hhalt : Halted (queue.stateAt slot))
    (hfits : RunFits step Fits queue steps) :
    Halted ((run step queue steps).stateAt slot) ∨ ∃ before next after,
      steps = before ++ next :: after ∧ (run step queue before).Wakes slot next := by
  refine run_preserves_unless (fun queue => Halted (queue.stateAt slot)) ?_ hhalt hfits
  intro queue next hhalt hnext
  rcases stateAt_step_of_halted hhalt hnext with hsame | hwakes | hgone
  · exact .inl (hsame ▸ hhalt)
  · exact .inr hwakes
  · exact .inl (.inr (.inr hgone))

/-- From an initialised queue whose running process, if any, is in the first slot,
every run whose steps all fit is disciplined. -/
theorem run_disciplined (slots : List (Option Process)) (nextWakeTick : UInt32)
    (steps : List Step) (hinit : (init slots nextWakeTick).RunningIsCurrent)
    (hfits : RunFits step Fits (init slots nextWakeTick) steps) :
    Disciplined (init slots nextWakeTick) steps := by
  refine ⟨run_preserves RunningIsCurrent (fun _ _ hinv hnext => hinv.step hnext)
    hinit hfits, ?_, ?_⟩
  · rintro before after process rfl hcur
    obtain ⟨-, -, hafter⟩ := runFits_append.mp hfits
    have hend := run_exited (rescheduled hcur .exit).stateAt_exit hafter
    rw [run_append]
    exact Halted.not_runnable (.inr (.inr hend))
  · rintro before after slot rfl hblocked hrunn
    obtain ⟨-, hafter⟩ := runFits_append.mp hfits
    have hhalt : Halted ((run step (init slots nextWakeTick) before).stateAt slot) :=
      hblocked.elim .inl (fun hasleep => .inr (.inl hasleep))
    rw [run_append] at hrunn
    rcases run_halted hhalt hafter with hend | ⟨between, next, rest, hsteps, hwakes⟩
    · exact absurd hrunn hend.not_runnable
    · exact ⟨between, next, rest, hsteps, by rwa [run_append]⟩

/-- Three ready processes in turn: one blocks and is woken, one sleeps and is woken by
a tick, one leaves. -/
theorem run_disciplined_three : Disciplined (init (List.replicate 3 (some ⟨.ready, 0⟩)) 0)
      [.activate 0, .start 0, .block, .tick 1, .sleepUntil 5, .wakeWaiter 0, .yield, .exit,
        .tick 5] := by
  refine run_disciplined _ _ _ ?_ (by decide)
  intro slot hrun
  match slot with
  | 0 | 1 | 2 => cases hrun
  | slot + 3 => cases hrun

/-- Each of the two conditions is needed: two processes run after two starts; and the
last process to leave runs again after a yield, as does a blocked one that the queue
was initialised on. -/
theorem run_undisciplined :
    ¬Disciplined (init [some ⟨.ready, 0⟩, some ⟨.ready, 0⟩] 0) [.start 0, .start 1] ∧
      ¬Disciplined (init [some ⟨.ready, 0⟩] 0) [.start 0, .exit, .yield] ∧
      ¬Disciplined (init [some ⟨.waiting, 0⟩] 0) [.yield] := by
  refine ⟨fun h => ?_, fun h => ?_, fun h => ?_⟩
  · exact absurd (h.running 0 rfl) (by decide)
  · exact h.exited [.start 0] [.yield] ⟨.running, 0⟩ rfl rfl (.inr rfl)
  obtain ⟨between, next, rest, hsteps, hwakes⟩ := h.blocked [] [.yield] 0 rfl (.inl rfl) (.inr rfl)
  cases between with
  | nil =>
    obtain ⟨rfl, -⟩ := List.cons.inj hsteps
    exact hwakes
  | cons first others => simp at hsteps

end RunQueue

end NexOS.Sched
