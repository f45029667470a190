import NexOS.Lib.GuardedRuns
import NexOS.Proc.Credentials

/-! # Capabilities across a spawn

A new process starts from the pending set of its parent when there is one, and
from the parent's effective capabilities otherwise. The pending set is compared
with the effective capabilities when it is stored and is not looked at again
before it is used, so it can outlive a capability that was dropped in between.
-/

namespace NexOS.Proc

open Capability (sysAdmin)
open Mask (Within)

namespace ExecNode

/-- The program runs as root. -/
def SetuidRoot (node : ExecNode) : Prop := ∃ gid, node.setuid = some (0#32, gid)

lemma policyCapabilities_within (node : ExecNode) (baseCaps : Word) :
    Within (node.policyCapabilities baseCaps) baseCaps := by
  unfold policyCapabilities
  cases node.capPolicyMask with
  | none => exact Mask.and_within_left _ _
  | some policy =>
    exact (Mask.and_within_left _ _).trans (Mask.and_within_left _ _)

lemma policyCapabilities_within_sysAdmin (node : ExecNode) (baseCaps : Word) :
    Within (node.policyCapabilities baseCaps) sysAdmin := by
  unfold policyCapabilities
  cases node.capPolicyMask with
  | none => exact Mask.and_within_right _ _
  | some policy =>
    exact (Mask.and_within_left _ _).trans (Mask.and_within_right _ _)

end ExecNode

namespace Process

@[simp] lemma setCapabilities_caps (proc : Process) (caps : Word) :
    (proc.setCapabilities caps).caps = caps &&& sysAdmin := rfl

lemma capabilities_of_uid_zero {proc : Process} (huid : proc.uid = 0#32) :
    proc.capabilities = sysAdmin := if_pos huid

lemma capabilities_of_uid_ne_zero {proc : Process} (huid : proc.uid ≠ 0#32) :
    proc.capabilities = proc.caps := if_neg huid

/-- The capabilities a new process stores, whoever its parent is. -/
lemma spawnChild_caps (parent : Process) (node : ExecNode) (hroot : ¬ node.SetuidRoot) :
    (parent.spawnChild node).caps =
      node.policyCapabilities (parent.nextSpawnCapabilities parent.capabilities) := by
  have hbase : ((prepareSlot (some parent)).applyExecIdentity node
      (parent.nextSpawnCapabilities parent.capabilities)).2 =
      parent.nextSpawnCapabilities parent.capabilities := by
    unfold applyExecIdentity
    rcases hsetuid : node.setuid with _ | owner
    · rfl
    obtain ⟨uid, gid⟩ := owner
    have huid : uid ≠ 0#32 := fun hzero => hroot ⟨gid, hzero ▸ hsetuid⟩
    exact if_neg huid
  unfold spawnChild
  rw [setCapabilities_caps, hbase]
  exact (node.policyCapabilities_within_sysAdmin _).and_eq

/-- Without a set-uid root file, only a super user's child is a super user. -/
lemma spawnChild_uid_ne_zero {parent : Process} {node : ExecNode}
    (hroot : ¬ node.SetuidRoot) (huid : parent.uid ≠ 0#32) :
    (parent.spawnChild node).uid ≠ 0#32 := by
  unfold spawnChild applyExecIdentity
  cases hsetuid : node.setuid with
  | none => exact huid
  | some owner =>
    obtain ⟨uid, gid⟩ := owner
    exact fun hzero => hroot ⟨gid, by rw [hsetuid, show uid = 0#32 from hzero]⟩

/-- A new process of a super user holds no more than the super user does. -/
lemma spawnChild_within_sysAdmin (parent : Process) (node : ExecNode) :
    Within (parent.spawnChild node).capabilities sysAdmin := by
  by_cases huid : (parent.spawnChild node).uid = 0#32
  · rw [capabilities_of_uid_zero huid]
    exact Mask.within_refl _
  · rw [capabilities_of_uid_ne_zero huid]
    exact Mask.and_within_right _ _

/-- The set that the parent keeps for its next child, cut by the policy of the
file, is still covered by what the parent holds. -/
def PendingCovered (parent : Process) (node : ExecNode) : Prop := parent.nextSpawnCapsSet = true →
    Within (node.policyCapabilities parent.nextSpawnCaps) parent.capabilities

lemma spawnChild_within_iff (parent : Process) (node : ExecNode) (hroot : ¬ node.SetuidRoot)
    (huid : parent.uid ≠ 0#32) :
    Within (parent.spawnChild node).capabilities parent.capabilities ↔
      parent.PendingCovered node := by
  rw [capabilities_of_uid_ne_zero (spawnChild_uid_ne_zero hroot huid),
    spawnChild_caps parent node hroot]
  unfold PendingCovered nextSpawnCapabilities
  cases parent.nextSpawnCapsSet with
  | false => simpa using node.policyCapabilities_within parent.capabilities
  | true => simp

end Process

/-! ## Sequences of capability calls -/

/-- The process after a sequence of `SYS_CAPABILITY` calls. -/
def runCapability (proc : Process) (calls : List (CapOp × Word)) : Process :=
  GuardedRuns.run (fun proc call => (capability proc call.1 call.2).2) proc calls

/-- The calls of a sequence that return no error. -/
def acceptedCalls (proc : Process) : List (CapOp × Word) → List (CapOp × Word)
  | [] => []
  | call :: rest =>
    let (result, next) := capability proc call.1 call.2
    match result with
    | .error _ => acceptedCalls next rest
    | .ok _ => call :: acceptedCalls next rest

/-- The call passes on the capability. -/
def Gives (i : Nat) (call : CapOp × Word) : Prop :=
  (call.1 = .grant ∨ call.1 = .authGrant) ∧ call.2.getLsbD i = true

/-- One of the calls drops the capability with this bit, and no later one gives it back. -/
def Loses (i : Nat) (calls : List (CapOp × Word)) : Prop :=
  ∃ before mask after, calls = before ++ (.drop, mask) :: after ∧ mask.getLsbD i = true ∧
    ∀ call ∈ after, ¬Gives i call

/-- The calls leave the pending set as it is. -/
def KeepPending (calls : List (CapOp × Word)) : Prop :=
  ∀ call ∈ calls, call.1 ≠ .spawnSet ∧ call.1 ≠ .spawnClear

/-- No capability that the policy of the file keeps is lost between the `SPAWN_SET` that
stored it and the end of the calls. -/
def StoredKept (node : ExecNode) (calls : List (CapOp × Word)) : Prop :=
  ∀ before mask after, calls = before ++ (.spawnSet, mask) :: after → KeepPending after →
    ∀ i, (node.policyCapabilities mask).getLsbD i = true → ¬Loses i after

/-- The same for a set that was pending before the calls: what the process did not hold any
more is given back to it. -/
def Process.EarlierKept (proc : Process) (node : ExecNode) (calls : List (CapOp × Word)) : Prop :=
  proc.nextSpawnCapsSet = true → KeepPending calls →
    ∀ i, (node.policyCapabilities proc.nextSpawnCaps).getLsbD i = true →
      ¬Loses i calls ∧ (proc.capabilities.getLsbD i = true ∨ ∃ call ∈ calls, Gives i call)

section

variable {i : Nat} {call : CapOp × Word} {calls : List (CapOp × Word)}

lemma loses_cons : Loses i (call :: calls) ↔
    (call.1 = .drop ∧ call.2.getLsbD i = true ∧ ∀ later ∈ calls, ¬Gives i later) ∨
      Loses i calls := by
  constructor
  · rintro ⟨_ | ⟨_, before⟩, mask, after, hcalls, hdrop⟩
    · obtain ⟨rfl, rfl⟩ := List.cons.inj hcalls
      exact .inl ⟨rfl, hdrop⟩
    · exact .inr ⟨before, mask, after, (List.cons.inj hcalls).2, hdrop⟩
  · rintro (⟨hop, hdrop⟩ | ⟨before, mask, after, rfl, hdrop⟩)
    · exact ⟨[], call.2, calls, by rw [← hop]; rfl, hdrop⟩
    · exact ⟨call :: before, mask, after, rfl, hdrop⟩

lemma not_loses_nil : ¬Loses i [] := by
  rintro ⟨before, mask, after, hcalls, -⟩
  exact absurd hcalls (by simp)

lemma storedKept_cons {node : ExecNode} : StoredKept node (call :: calls) ↔
    (call.1 = .spawnSet → KeepPending calls →
      ∀ i, (node.policyCapabilities call.2).getLsbD i = true → ¬Loses i calls) ∧
      StoredKept node calls := by
  constructor
  · intro hkept
    refine ⟨fun hop => hkept [] call.2 calls (by rw [← hop]; rfl), ?_⟩
    rintro before mask after rfl
    exact hkept (call :: before) mask after rfl
  · rintro ⟨hfirst, hrest⟩ (_ | ⟨_, before⟩) mask after hcalls
    · obtain ⟨rfl, rfl⟩ := List.cons.inj hcalls
      exact hfirst rfl
    · exact hrest before mask after (List.cons.inj hcalls).2

end

lemma uid_capability (proc : Process) (op : CapOp) (mask : Word) :
    (capability proc op mask).2.uid = proc.uid := by
  unfold capability
  split
  · rfl
  · cases op <;> dsimp only <;> first | rfl | (split <;> rfl)

lemma capability_of_error {proc : Process} {op : CapOp} {mask : Word} {errno : Errno}
    (herr : (capability proc op mask).1 = .error errno) : (capability proc op mask).2 = proc := by
  unfold capability at herr ⊢
  by_cases hvalid : mask &&& ~~~sysAdmin ≠ 0#32
  · rw [if_pos hvalid]
  rw [if_neg hvalid] at herr ⊢
  cases op <;> dsimp only at herr ⊢ <;> first | (split_ifs at herr ⊢; rfl) | cases herr

section

variable {proc : Process} (huid : proc.uid ≠ 0#32) {op : CapOp} {mask result : Word}
  (hok : (capability proc op mask).1 = .ok result)

include huid hok

/-- A call that is accepted from a user gives or takes a capability by its bit. -/
lemma capabilities_of_ok {i : Nat} (hbit : sysAdmin.getLsbD i = true) :
    (capability proc op mask).2.capabilities.getLsbD i = true ↔ Gives i (op, mask) ∨
      proc.capabilities.getLsbD i = true ∧ ¬(op = .drop ∧ mask.getLsbD i = true) := by
  have hlt : i < 32 := BitVec.lt_of_getLsbD hbit
  unfold capability at hok ⊢
  split at hok
  · cases hok
  next hvalid =>
    rw [if_neg hvalid]
    cases op <;> dsimp only at hok ⊢ <;> try split_ifs at hok ⊢
    all_goals try cases hok
    all_goals simp [Gives, Process.setCapabilities, Process.capabilities, huid, hbit, hlt, or_comm,
      Process.setNextSpawnCapabilities, Process.clearNextSpawnCapabilities]

lemma pending_of_ok : Within mask sysAdmin ∧ (op = .spawnSet → Within mask proc.capabilities) ∧
    ((capability proc op mask).2.nextSpawnCapsSet, (capability proc op mask).2.nextSpawnCaps) =
      (match op with
        | .spawnSet => (true, mask)
        | .spawnClear => (false, 0#32)
        | _ => (proc.nextSpawnCapsSet, proc.nextSpawnCaps)) := by
  unfold capability at hok ⊢
  split at hok
  · cases hok
  next hvalid =>
    have hin : Within mask sysAdmin := not_not.mp hvalid
    rw [if_neg hvalid]
    cases op <;> dsimp only at hok ⊢ <;> try split_ifs at hok ⊢
    all_goals try cases hok
    all_goals simp_all [Process.setCapabilities, Process.setNextSpawnCapabilities,
      Process.clearNextSpawnCapabilities, hin.and_eq, Within]

/-- A call that is accepted and a list of later ones, seen from before and from after the call. -/
lemma keeps_cons {i : Nat} (hbit : sysAdmin.getLsbD i = true) (calls : List (CapOp × Word)) :
    (¬Loses i calls ∧ ((capability proc op mask).2.capabilities.getLsbD i = true ∨
        ∃ call ∈ calls, Gives i call)) ↔
      ¬Loses i ((op, mask) :: calls) ∧ (proc.capabilities.getLsbD i = true ∨
        ∃ call ∈ (op, mask) :: calls, Gives i call) := by
  rw [capabilities_of_ok huid hok hbit, loses_cons, List.exists_mem_cons_iff]
  have hexcl : Gives i (op, mask) → ¬(op = .drop ∧ mask.getLsbD i = true) := by
    rintro ⟨hop | hop, -⟩ ⟨rfl, -⟩ <;> cases hop
  by_cases hlater : ∃ call ∈ calls, Gives i call
  · have hnone : ¬∀ later ∈ calls, ¬Gives i later := by
      push Not
      exact hlater
    tauto
  · have hall : ∀ later ∈ calls, ¬Gives i later := fun later hmem hgives =>
      hlater ⟨later, hmem, hgives⟩
    tauto

lemma earlierKept_of_ok {node : ExecNode} (calls : List (CapOp × Word)) :
    (capability proc op mask).2.EarlierKept node calls ↔
      (op = .spawnSet → KeepPending calls →
        ∀ i, (node.policyCapabilities mask).getLsbD i = true → ¬Loses i calls) ∧
      proc.EarlierKept node ((op, mask) :: calls) := by
  obtain ⟨-, hset, hpend⟩ := pending_of_ok huid hok
  have hvalid : ∀ {base : Word} {i : Nat}, (node.policyCapabilities base).getLsbD i = true →
      sysAdmin.getLsbD i = true := fun hi =>
    Mask.within_iff.mp (node.policyCapabilities_within_sysAdmin _) _ hi
  by_cases hspawn : op = .spawnSet
  · subst hspawn
    obtain ⟨hflag, hcaps⟩ := Prod.mk.inj hpend
    constructor
    · intro hkept
      exact ⟨fun _ hkeep i hi => (hkept hflag hkeep i (by rwa [hcaps])).1,
        fun _ hkeep => absurd rfl (hkeep _ List.mem_cons_self).1⟩
    · rintro ⟨hkept, -⟩ - hkeep i hi
      rw [hcaps] at hi
      refine ⟨hkept rfl hkeep i hi, .inl ((capabilities_of_ok huid hok (hvalid hi)).mpr
        (.inr ⟨?_, fun hdrop => nomatch hdrop.1⟩))⟩
      exact Mask.within_iff.mp ((node.policyCapabilities_within mask).trans (hset rfl)) i hi
  by_cases hclear : op = .spawnClear
  · subst hclear
    obtain ⟨hflag, -⟩ := Prod.mk.inj hpend
    refine iff_of_true (fun hpending => ?_) ⟨nofun, fun _ hkeep => ?_⟩
    · rw [hflag] at hpending
      cases hpending
    · exact absurd rfl (hkeep _ List.mem_cons_self).2
  · have hsame : (capability proc op mask).2.nextSpawnCapsSet = proc.nextSpawnCapsSet ∧
        (capability proc op mask).2.nextSpawnCaps = proc.nextSpawnCaps := by
      cases op <;> first | exact Prod.mk.inj hpend | contradiction
    have hkeep : KeepPending ((op, mask) :: calls) ↔ KeepPending calls := by
      simp [KeepPending, hspawn, hclear]
    unfold Process.EarlierKept
    rw [hsame.1, hsame.2, hkeep]
    simp only [hspawn, false_implies, true_and]
    refine imp_congr_right fun _ => imp_congr_right fun _ => forall_congr' fun i =>
      imp_congr_right fun hi => keeps_cons huid hok (hvalid hi) calls

end

/-- Whether the pending set is covered in the end is decided by the calls. -/
lemma pendingCovered_runCapability {proc : Process} (huid : proc.uid ≠ 0#32) (node : ExecNode)
    (calls : List (CapOp × Word)) : (runCapability proc calls).PendingCovered node ↔
      StoredKept node (acceptedCalls proc calls) ∧
        proc.EarlierKept node (acceptedCalls proc calls) := by
  induction calls generalizing proc with
  | nil =>
    have hstored : StoredKept node [] := fun before mask after hcalls => by simp at hcalls
    simp [runCapability, GuardedRuns.run, acceptedCalls, hstored, Process.EarlierKept,
      Process.PendingCovered, KeepPending, not_loses_nil, Mask.within_iff]
  | cons call rest ih =>
    obtain ⟨op, mask⟩ := call
    change (runCapability (capability proc op mask).2 rest).PendingCovered node ↔ _
    rcases hres : (capability proc op mask).1 with errno | result
    · have hsame := capability_of_error hres
      have hlist : acceptedCalls proc ((op, mask) :: rest) = acceptedCalls proc rest := by
        simp only [acceptedCalls, hres, hsame]
      rw [hsame, hlist]
      exact ih huid
    · have hlist : acceptedCalls proc ((op, mask) :: rest) =
          (op, mask) :: acceptedCalls (capability proc op mask).2 rest := by
        simp only [acceptedCalls, hres]
      rw [hlist, ih ((uid_capability ..).trans_ne huid), storedKept_cons,
        earlierKept_of_ok huid hres]
      tauto

/-- A spawned process holds at most what its parent holds at that moment exactly when the file is
set-uid root, the parent is the super user, or no capability that the file's policy keeps was lost
after it was put into the pending set. -/
theorem spawn_capabilities_within_iff (proc : Process) (calls : List (CapOp × Word))
    (node : ExecNode) :
    (node.SetuidRoot ∨ Within ((runCapability proc calls).spawnChild node).capabilities
          (runCapability proc calls).capabilities) ↔
      (node.SetuidRoot ∨ proc.uid = 0#32 ∨ StoredKept node (acceptedCalls proc calls) ∧
        proc.EarlierKept node (acceptedCalls proc calls)) := by
  by_cases hroot : node.SetuidRoot
  · exact iff_of_true (Or.inl hroot) (Or.inl hroot)
  have huid : (runCapability proc calls).uid = proc.uid := GuardedRuns.run_invariant
    (Process.uid · = proc.uid) (fun _ call h => (uid_capability _ call.1 call.2).trans h) rfl calls
  by_cases hzero : proc.uid = 0#32
  · refine iff_of_true (Or.inr ?_) (Or.inr (Or.inl hzero))
    rw [Process.capabilities_of_uid_zero (huid.trans hzero)]
    exact (runCapability proc calls).spawnChild_within_sysAdmin node
  · simp only [hroot, hzero, false_or]
    rw [Process.spawnChild_within_iff _ node hroot (huid.trans_ne hzero)]
    exact pendingCovered_runCapability hzero node calls

/-- A program that runs as user 1000. -/
def userProgram : ExecNode where
  kind := .file
  mountKind := .nxfs
  mode := 0o4755#32
  uid := 1000#32
  gid := 1000#32

def plainProgram : ExecNode := { userProgram with mode := 0o755#32 }

/-- A process of user 1000. -/
def userProcess : Process := (Process.prepareSlot none).spawnChild userProgram

/-- A process that stores a pending set and then drops a capability in it
starts a child with the dropped capability. -/
theorem spawn_after_drop_exceeds_parent :
    userProcess.Reachable ∧ ¬ plainProgram.SetuidRoot ∧ ¬ Within ((runCapability userProcess
          [(.spawnSet, Capability.power.mask), (.drop, Capability.power.mask)]).spawnChild
            plainProgram).capabilities
        (runCapability userProcess
          [(.spawnSet, Capability.power.mask), (.drop, Capability.power.mask)]).capabilities := by
  refine ⟨Process.Reachable.boot.spawned true true userProgram rfl, ?_, by decide⟩
  rintro ⟨gid, hsetuid⟩
  cases hsetuid

end NexOS.Proc
