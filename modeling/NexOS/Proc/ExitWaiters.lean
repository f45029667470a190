import NexOS.Sched.RunQueue
import NexOS.Lib.GuardedRuns

/-! # Waking the waiters of an exit

`process_lifecycle_wake_exit_waiters` (`kernel/proc/process_model.c`) wakes every
process in the waiting state whose `wait.pid` is zero or the pid that exited. It does
not look at parents, the waiting state is shared with pipes and terminals, and no
caller ever stores a pid in `wait.pid`: the wait system call collects a child that
has exited or asks for a retry. So the wake-up goes to every waiting process, and the
call it is blocked in returns 1 as if it were the wait of a parent.
-/

namespace NexOS.Proc.ExitWaiters

open List Option GuardedRuns

open Sched (ProcessState)

/-- What a process can be blocked in. -/
inductive Blocking where
  /-- A wait for one child, or for any. -/
  | childWait (pid : Option UInt32)
  | pipe
  | terminal
  deriving DecidableEq

/-- The fields of a process slot that waiting and exiting use. `info` is the record
last copied to the address in `wait.info_user`: a pid and its exit code. The source has
no field `blocking`: it is known only to the caller that blocks. -/
structure Task where
  pid : UInt32
  parentPid : UInt32
  state : ProcessState
  waitPid : UInt32
  waitInfoUser : UInt64
  exitCode : Int32
  wakeTick : UInt32
  returnValue : UInt64
  root : UInt32
  info : Option (UInt32 × Int32)
  blocking : Option Blocking
  deriving DecidableEq

/-- The process table. -/
abbrev Table : Type := List (Option Task)

namespace Task

/-- The process waits for nothing. -/
def clearWait (task : Task) : Task := { task with waitPid := 0, waitInfoUser := 0 }

/-- `process_lifecycle_waiter_matches_exit`, given the waiter's own `wait.pid`. -/
def waiterMatchesExit (waiter : Task) (exitedPid : UInt32) : Bool :=
  waiter.state = .waiting && (waiter.waitPid = 0 || waiter.waitPid = exitedPid)

/-- The wait returns with the exit code. -/
def finishWait (waiter : Task) (exitCode : Int32) : Task :=
  { waiter with returnValue := exitCode.toUInt32.toUInt64, state := .ready }

/-- `scheduler_process_copy_wait_info_to_user`, the callback that both callers pass. -/
def copyWaitInfo (exited waiter : Task) : Task := { waiter with
    returnValue := 1
    info := if waiter.waitInfoUser = 0 || waiter.root = 0 then waiter.info
      else some (exited.pid, exited.exitCode) }

/-- `process_lifecycle_mark_exited_for_scheduler`. -/
def markExited (task : Task) (exitCode : Int32) : Task :=
  { task with exitCode := exitCode, state := .exited, wakeTick := 0 }

/-- A new process. -/
def init (pid parentPid root : UInt32) : Task :=
  ⟨pid, parentPid, .ready, 0, 0, 0, 0, 0, root, none, none⟩

/-- A waiter gets what it waits for. -/
def wake (exited waiter : Task) (exitCode : Int32) : Task :=
  (copyWaitInfo exited (waiter.finishWait exitCode)).clearWait

end Task

/-- The second loop of `process_lifecycle_wake_exit_waiters`. -/
def wakeLoop (exited : Task) (exitedPid : UInt32) (exitCode : Int32) :
    Table → UInt32 → UInt32 × Table
  | [], woke => (woke, [])
  | none :: rest, woke =>
    let (woke, rest) := wakeLoop exited exitedPid exitCode rest woke
    (woke, none :: rest)
  | some waiter :: rest, woke =>
    if waiter.waiterMatchesExit exitedPid then
      let (woke, rest) := wakeLoop exited exitedPid exitCode rest (woke + 1)
      (woke, some (Task.wake exited waiter exitCode) :: rest)
    else
      let (woke, rest) := wakeLoop exited exitedPid exitCode rest woke
      (woke, some waiter :: rest)

/-- The process with this number. -/
def findPid (table : Table) (pid : UInt32) : Option Task :=
  table.findSome? fun slot => slot.filter fun task => task.pid = pid

/-- All processes that wait for the one that exits. -/
def wakeExitWaiters (table : Table) (exitedPid : UInt32) (exitCode : Int32) : UInt32 × Table :=
  if exitedPid = 0 then (0, table)
  else
    match findPid table exitedPid with
    | none => (0, table)
    | some exited => wakeLoop exited exitedPid exitCode table 0

/-- The record a slot holds while the waiters are looked for. -/
def leaving (task : Task) (exitCode : Int32) (clearWait : Bool) : Task :=
  if clearWait then (task.markExited exitCode).clearWait else task.markExited exitCode

/-- `process_lifecycle_mark_exited_and_wake` for the process behind a slot. -/
def markExitedAndWake (table : Table) (slot : Nat) (exitCode : Int32) (clearWait : Bool) :
    UInt32 × Table :=
  match table.getD slot none with
  | none => (0, table)
  | some task =>
    let task := leaving task exitCode clearWait
    wakeExitWaiters (table.set slot (some task)) task.pid exitCode

/-- What happens to the slots. A new process starts with cleared wait fields, and a process
that blocks stores nothing in them. -/
inductive Step where
  | create (slot : Nat) (task : Task)
  | transition (slot : Nat) (state : ProcessState) (blocking : Option Blocking)
  | exit (slot : Nat) (exitCode : Int32) (clearWait : Bool)
  | release (slot : Nat)

/-- One step of the table. -/
def perform (table : Table) : Step → Table
  | .create slot task => table.set slot (some task.clearWait)
  | .transition slot state blocking => table.set slot ((table.getD slot none).map fun task =>
      { task with state := state, blocking := blocking })
  | .exit slot exitCode clearWait => (markExitedAndWake table slot exitCode clearWait).2
  | .release slot => table.set slot none

/-! ## What one exit does to the table -/

variable {table : Table} {slot : Nat} {task : Task} {exitCode : Int32} {clearWait : Bool}

lemma wakeLoop_table (exited : Task) (exitedPid : UInt32) (exitCode : Int32) (table : Table)
    (woke : UInt32) :
    (wakeLoop exited exitedPid exitCode table woke).2 = table.map (Option.map fun waiter =>
        if waiter.waiterMatchesExit exitedPid then Task.wake exited waiter exitCode
        else waiter) := by
  induction table generalizing woke with
  | nil => rfl
  | cons entry rest ih =>
    rcases entry with _ | waiter
    · simp [wakeLoop, ih]
    rw [wakeLoop]
    split
    next hmatch => simp [ih, hmatch]
    next hmatch => simp [ih, hmatch]

lemma leaving_pid : (leaving task exitCode clearWait).pid = task.pid := by
  cases clearWait <;> rfl

/-- What the exit of a pid makes of the record in a slot. -/
def answer (exited : Task) (pid : UInt32) (exitCode : Int32) (task : Task) : Task :=
  if pid ≠ 0 ∧ task.waiterMatchesExit pid = true then Task.wake exited task exitCode else task

lemma markExitedAndWake_table (exitCode : Int32) (clearWait : Bool)
    (htask : table[slot]? = some (some task)) : ∃ exited,
    (markExitedAndWake table slot exitCode clearWait).2 =
      (table.set slot (some (leaving task exitCode clearWait))).map
        (Option.map (answer exited task.pid exitCode)) := by
  have hslot : slot < table.length := (List.getElem?_eq_some_iff.mp htask).1
  have hget : table.getD slot none = some task := by
    rw [getD_eq_getElem?_getD, htask]
    rfl
  simp only [markExitedAndWake, hget, leaving_pid, wakeExitWaiters]
  by_cases hpid : task.pid = 0
  · refine ⟨task, ?_⟩
    have hid : answer task task.pid exitCode = id := by
      funext other
      simp [answer, hpid]
    rw [if_pos hpid, hid, Option.map_id_fun, List.map_id]
  obtain ⟨exited, hexit⟩ : ∃ exited, findPid
      (table.set slot (some (leaving task exitCode clearWait))) task.pid = some exited := by
    rw [← isSome_iff_exists, findPid, findSome?_isSome_iff]
    exact ⟨_, mem_of_getElem? (getElem?_set_self hslot), by simp [leaving_pid]⟩
  refine ⟨exited, ?_⟩
  have hanswer : answer exited task.pid exitCode = fun waiter =>
      if waiter.waiterMatchesExit task.pid then Task.wake exited waiter exitCode else waiter := by
    funext waiter
    simp [answer, hpid]
  rw [if_neg hpid, hexit, hanswer]
  exact wakeLoop_table ..

/-! ## The wait fields -/

/-- No process has stored what it waits for. -/
def WaitFieldsClear (table : Table) : Prop :=
  ∀ task, some task ∈ table → task.waitPid = 0 ∧ task.waitInfoUser = 0

lemma WaitFieldsClear.set (hclear : WaitFieldsClear table) {entry : Option Task}
    (hentry : ∀ task ∈ entry, task.waitPid = 0 ∧ task.waitInfoUser = 0) :
    WaitFieldsClear (table.set slot entry) := by
  intro task hmem
  rcases mem_or_eq_of_mem_set hmem with hmem | heq
  · exact hclear task hmem
  · exact hentry task heq.symm

lemma WaitFieldsClear.perform (hclear : WaitFieldsClear table) (step : Step) :
    WaitFieldsClear (perform table step) := by
  have hslot : ∀ slot task, table.getD slot none = some task →
      task.waitPid = 0 ∧ task.waitInfoUser = 0 := by
    intro slot task htask
    rw [getD_eq_getElem?_getD, getD_eq_iff] at htask
    exact hclear task (mem_of_getElem? (htask.resolve_right (by simp)))
  cases step with
  | create slot task => exact hclear.set (by rintro _ ⟨⟩; exact ⟨rfl, rfl⟩)
  | release slot => exact hclear.set nofun
  | transition slot state blocking =>
    refine hclear.set fun task htask => ?_
    obtain ⟨old, hold, rfl⟩ := map_eq_some_iff.mp htask
    exact hslot slot old hold
  | exit slot exitCode clearWait =>
    rcases htask : table[slot]? with _ | _ | task
    · simpa [ExitWaiters.perform, markExitedAndWake, htask] using hclear
    · simpa [ExitWaiters.perform, markExitedAndWake, htask] using hclear
    obtain ⟨exited, hafter⟩ := markExitedAndWake_table exitCode clearWait htask
    have hleft : WaitFieldsClear (table.set slot (some (leaving task exitCode clearWait))) := by
      refine hclear.set ?_
      rintro _ ⟨⟩
      have hold := hclear task (mem_of_getElem? htask)
      cases clearWait
      · exact hold
      · exact ⟨rfl, rfl⟩
    rw [ExitWaiters.perform, hafter]
    intro after hmem
    obtain ⟨entry, hentry, heq⟩ := mem_map.mp hmem
    obtain ⟨before, rfl, rfl⟩ := map_eq_some_iff.mp heq
    unfold answer
    split
    · exact ⟨rfl, rfl⟩
    · exact hleft before hentry

end NexOS.Proc.ExitWaiters
