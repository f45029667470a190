import NexOS.Proc.SpawnCapabilities
import NexOS.Lib.GuardedRuns

/-! # Restrictions of a process

Capabilities are given up by a drop, and by starting a file that carries a
capability policy. Both change the stored word. The user id zero overrides that
word in every answer, so for the super user neither has an effect. For everybody
else a dropped capability stays away until it is granted again, unless the
process returns to an identity that it saved before.
-/

namespace NexOS.Proc

open Capability (sysAdmin)
open Mask (Within)
open GuardedRuns

variable {cap : Word}

namespace Process

variable {proc : Process} {mask : Word}

lemma hasCapability_of_uid_zero (huid : proc.uid = 0#32) :
    proc.hasCapability cap = true ↔ cap ≠ 0#32 ∧ Within cap sysAdmin := by
  unfold hasCapability
  by_cases hcap : cap = 0#32
  · simp [hcap]
  rw [if_neg hcap, if_pos huid, beq_iff_eq]
  refine ⟨fun heq => ⟨hcap, ?_⟩, fun h => h.2.and_eq⟩
  rw [← heq]
  exact Mask.and_within_right _ _

lemma hasCapability_of_uid_ne_zero (huid : proc.uid ≠ 0#32) :
    proc.hasCapability cap = true ↔ cap ≠ 0#32 ∧ Within cap proc.caps := by
  unfold hasCapability
  by_cases hcap : cap = 0#32
  · simp [hcap]
  rw [if_neg hcap, if_neg huid, beq_iff_eq, BitVec.and_comm]
  refine ⟨fun heq => ⟨hcap, ?_⟩, fun h => h.2.and_eq⟩
  rw [← heq]
  exact Mask.and_within_right _ _

/-- A process answers yes only inside a policy exactly if it is no super user or
the policy covers everything, once its stored capabilities are cut to the policy. -/
lemma hasCapability_within_iff {policy : Word} (hcaps : Within proc.caps policy) :
    (∀ cap, proc.hasCapability cap = true → Within cap policy) ↔
      proc.uid ≠ 0#32 ∨ Within sysAdmin policy := by
  by_cases huid : proc.uid = 0#32
  · simp only [hasCapability_of_uid_zero huid, huid, ne_eq, not_true_eq_false, false_or]
    constructor
    · intro hall
      exact hall sysAdmin ⟨by decide, Mask.within_refl _⟩
    · intro hpol cap hcap
      exact hcap.2.trans hpol
  · refine iff_of_true (fun cap hcap => ?_) (.inl huid)
    rw [hasCapability_of_uid_ne_zero huid] at hcap
    exact hcap.2.trans hcaps

/-! ## Policies of files -/

/-- The user that a program runs as. -/
def startedUid (proc : Process) (node : ExecNode) : Word := (node.setuid.map Prod.fst).getD proc.uid

lemma spawnChild_uid (parent : Process) (node : ExecNode) :
    (parent.spawnChild node).uid = parent.startedUid node := by
  unfold spawnChild applyExecIdentity startedUid
  cases node.setuid with
  | none => rfl
  | some owner => rfl

lemma execReplace_uid (proc : Process) (node : ExecNode) :
    (proc.execReplace node).uid = proc.startedUid node := by
  unfold execReplace startedUid
  cases node.setuid with
  | none => rfl
  | some owner => rfl

end Process

lemma ExecNode.policyCapabilities_within_policy {node : ExecNode} {policy : Word}
    (hpol : node.capPolicyMask = some policy) (baseCaps : Word) :
    Within (node.policyCapabilities baseCaps) policy := by
  unfold policyCapabilities
  rw [hpol]
  exact Mask.and_within_right _ _

namespace Process

variable {proc : Process} {mask : Word} {node : ExecNode} {policy : Word}

lemma spawnChild_caps_within (hpol : node.capPolicyMask = some policy) (parent : Process) :
    Within (parent.spawnChild node).caps policy :=
  (Mask.and_within_left _ _).trans (ExecNode.policyCapabilities_within_policy hpol _)

lemma execReplace_caps_within (hpol : node.capPolicyMask = some policy) (proc : Process) :
    Within (proc.execReplace node).caps policy :=
  (Mask.and_within_left _ _).trans (ExecNode.policyCapabilities_within_policy hpol _)

/-! ## Dropped capabilities -/

/-- The process is no super user and stores no capability of the mask. -/
structure Lacks (proc : Process) (mask : Word) : Prop where
  uid : proc.uid ≠ 0#32
  caps : proc.caps &&& mask = 0#32

lemma Lacks.hasCapability (hlacks : proc.Lacks mask) (hcap : Within cap mask) :
    proc.hasCapability cap = false := by
  rw [Bool.eq_false_iff, ne_eq, hasCapability_of_uid_ne_zero hlacks.uid]
  rintro ⟨hne, hheld⟩
  apply hne
  apply BitVec.eq_of_getLsbD_eq
  intro i _
  by_contra hbit
  have hset : cap.getLsbD i = true := by simpa using hbit
  have hboth : (proc.caps &&& mask).getLsbD i = true := by
    rw [BitVec.getLsbD_and, Mask.within_iff.mp hheld i hset, Mask.within_iff.mp hcap i hset]
    rfl
  rw [hlacks.caps] at hboth
  simp at hboth

/-- Storing fewer capabilities keeps the process without those of the mask. -/
lemma Lacks.setCapabilities (hlacks : proc.Lacks mask) {caps : Word}
    (hcaps : Within caps proc.caps) : (proc.setCapabilities caps).Lacks mask := by
  refine ⟨hlacks.uid, BitVec.eq_of_getLsbD_eq fun i _ => ?_⟩
  have hzero : (proc.caps &&& mask).getLsbD i = false := by
    rw [hlacks.caps]
    simp
  have hbit := Mask.within_iff.mp hcaps i
  rw [BitVec.getLsbD_and] at hzero
  cases hset : caps.getLsbD i with
  | false => simp [hset]
  | true =>
    rw [hbit hset, Bool.true_and] at hzero
    simp [hzero]

/-- After a drop nothing of the mask is stored. -/
lemma lacks_drop (huid : proc.uid ≠ 0#32) (hmask : Within mask sysAdmin) :
    (capability proc .drop mask).2.Lacks mask := by
  have hvalid : ¬(mask &&& ~~~sysAdmin ≠ 0#32) := not_not.mpr hmask
  unfold Proc.capability
  rw [if_neg hvalid]
  refine ⟨huid, BitVec.eq_of_getLsbD_eq fun i hi => ?_⟩
  cases hbit : mask.getLsbD i with
  | false => simp [hbit]
  | true => simp [hbit]

lemma identityPush_fields {next : Process} (hpush : proc.identityPush = some next) :
    next.uid = proc.uid ∧ next.caps = proc.caps ∧ next.nextSpawnCaps = proc.nextSpawnCaps ∧
      next.nextSpawnCapsSet = proc.nextSpawnCapsSet ∧
      next.identityStack = ⟨proc.uid, proc.gid, proc.caps⟩ :: proc.identityStack := by
  unfold identityPush at hpush
  split at hpush
  · cases hpush
    exact ⟨rfl, rfl, rfl, rfl, rfl⟩
  · cases hpush

lemma identityPop_fields {next : Process} (hpop : proc.identityPop = some next) :
    ∃ saved rest, proc.identityStack = saved :: rest ∧ next.uid = saved.uid ∧
      next.caps = saved.caps ∧ next.nextSpawnCaps = proc.nextSpawnCaps ∧
      next.nextSpawnCapsSet = proc.nextSpawnCapsSet ∧ next.identityStack = rest := by
  unfold identityPop at hpop
  split at hpop
  · cases hpop
  next saved rest hstack =>
    cases hpop
    exact ⟨saved, rest, hstack, rfl, rfl, rfl, rfl, rfl⟩

end Process

/-! ## Calls of one process -/

/-- What a process can do that changes its own credentials. -/
inductive CredCall where
  | capability (op : CapOp) (mask : Word)
  | identity (op : IdentityOp) (uid : Word)
  | spawn (slotFree imageLoads : Bool) (node : ExecNode)
  | execReplace (node : ExecNode)

namespace CredCall

/-- The process after a call. -/
def perform (proc : Process) : CredCall → Process
  | .capability op mask => (Proc.capability proc op mask).2
  | .identity op uid => (Proc.identity proc op uid).2
  | .spawn slotFree imageLoads node => (proc.jobSpawn slotFree imageLoads node).2
  | .execReplace node => proc.execReplace node

/-- The call gives no capability of the mask back: it is no grant, starts no file
of the super user and returns to no identity with such a capability. -/
def KeepsDropped (mask : Word) (proc : Process) : CredCall → Prop
  | .capability op _ => op ≠ .grant
  | .identity op _ => op = .pop →
      ∀ saved ∈ proc.identityStack.head?, saved.uid ≠ 0#32 ∧ saved.caps &&& mask = 0#32
  | .spawn _ _ _ => True
  | .execReplace node => ¬node.SetuidRoot

end CredCall

namespace Process

variable {proc : Process} {mask : Word} (hlacks : proc.Lacks mask)

include hlacks

lemma Lacks.capability {op : CapOp} (other : Word)
    (hop : op ≠ .grant) : (Proc.capability proc op other).2.Lacks mask := by
  have hcur := capabilities_of_uid_ne_zero hlacks.uid
  unfold Proc.capability
  split
  · exact hlacks
  cases op with
  | get => exact hlacks
  | drop =>
    refine hlacks.setCapabilities ?_
    rw [hcur]
    exact Mask.and_within_left _ _
  | grant => exact absurd rfl hop
  | spawnSet =>
    dsimp only
    split
    · exact hlacks
    · exact ⟨hlacks.uid, hlacks.caps⟩
  | spawnClear => exact ⟨hlacks.uid, hlacks.caps⟩
  | spawnGet => exact hlacks
  | authGrant =>
    dsimp only
    rw [if_pos hlacks.uid]
    exact hlacks

lemma Lacks.identity {op : IdentityOp} (uid : Word) (hpop : op = .pop →
      ∀ saved ∈ proc.identityStack.head?, saved.uid ≠ 0#32 ∧ saved.caps &&& mask = 0#32) :
    (Proc.identity proc op uid).2.Lacks mask := by
  unfold Proc.identity
  cases op with
  | dropUser =>
    rw [if_pos hlacks.uid]
    exact hlacks
  | authRoot =>
    dsimp only
    rw [if_pos hlacks.uid]
    exact hlacks
  | push =>
    dsimp only
    split
    next next hpush =>
      obtain ⟨huid, hcaps, -⟩ := identityPush_fields hpush
      exact ⟨huid ▸ hlacks.uid, hcaps ▸ hlacks.caps⟩
    · exact hlacks
  | pop =>
    dsimp only
    split
    next next hsaved =>
      obtain ⟨saved, rest, hstack, huid, hcaps, -⟩ := identityPop_fields hsaved
      obtain ⟨huid', hcaps'⟩ := hpop rfl saved (by rw [hstack]; rfl)
      exact ⟨huid ▸ huid', hcaps ▸ hcaps'⟩
    · exact hlacks

lemma Lacks.execReplace {node : ExecNode}
    (hroot : ¬node.SetuidRoot) : (proc.execReplace node).Lacks mask := by
  have hcur := capabilities_of_uid_ne_zero hlacks.uid
  have hpol := node.policyCapabilities_within proc.capabilities
  rw [hcur] at hpol
  unfold Process.execReplace
  cases hsetuid : node.setuid with
  | none =>
    rw [hcur]
    exact hlacks.setCapabilities hpol
  | some owner =>
    obtain ⟨uid, gid⟩ := owner
    have huid : uid ≠ 0#32 := fun hzero => hroot ⟨gid, hzero ▸ hsetuid⟩
    dsimp only
    rw [if_neg huid, hcur]
    have hcaps := (hlacks.setCapabilities hpol).caps
    exact ⟨huid, hcaps⟩

/-- One call of a process without capabilities of the mask. -/
lemma Lacks.perform {call : CredCall}
    (hcall : call.KeepsDropped mask proc) : (call.perform proc).Lacks mask := by
  cases call with
  | capability op other => exact hlacks.capability other hcall
  | identity op uid => exact hlacks.identity uid hcall
  | spawn slotFree imageLoads node =>
    change (proc.jobSpawn slotFree imageLoads node).2.Lacks mask
    unfold jobSpawn
    split
    · exact ⟨hlacks.uid, hlacks.caps⟩
    · exact hlacks
  | execReplace node => exact hlacks.execReplace hcall

omit hlacks

/-- Every call, when it is its turn, gives no capability of the mask back. -/
def RunKeepsDropped (mask : Word) : Process → List CredCall → Prop :=
  RunFits CredCall.perform fun proc call => call.KeepsDropped mask proc

/-- Dropping a mask leaves none of it exactly if the process is no super user or
the mask is empty. -/
lemma drop_effective_iff (proc : Process) (hmask : Within mask sysAdmin) :
    (∀ cap, Within cap mask → (Proc.capability proc .drop mask).2.hasCapability cap = false) ↔
      proc.uid ≠ 0#32 ∨ mask = 0#32 := by
  by_cases huid : proc.uid = 0#32
  · have hafter : (Proc.capability proc .drop mask).2.uid = 0#32 := by
      have hvalid : ¬(mask &&& ~~~sysAdmin ≠ 0#32) := not_not.mpr hmask
      unfold Proc.capability
      rw [if_neg hvalid]
      exact huid
    simp only [huid, ne_eq, not_true_eq_false, false_or]
    constructor
    · intro hall
      by_contra hne
      have hyes := (hasCapability_of_uid_zero hafter).mpr ⟨hne, hmask⟩
      rw [hall mask (Mask.within_refl _)] at hyes
      cases hyes
    · rintro rfl cap hcap
      rw [Bool.eq_false_iff, ne_eq, hasCapability_of_uid_zero hafter]
      rintro ⟨hne, -⟩
      apply hne
      rw [← hcap.and_eq, BitVec.and_zero]
  · exact iff_of_true (fun cap hcap => (lacks_drop huid hmask).hasCapability hcap) (.inl huid)

/-- Whether the restrictions of a process take effect: a policy of a started
file binds exactly if the file does not run as the super user or covers
everything, and a drop exactly if the process is no super user or nothing is
dropped. What was dropped stays away through every later sequence of calls that
neither grants it, nor starts a file of the super user, nor returns to a saved
identity that has it. -/
theorem restrictions_effective_iff (proc : Process) :
    (∀ node policy, node.capPolicyMask = some policy →
      ((∀ cap, (proc.spawnChild node).hasCapability cap = true → Within cap policy) ↔
        proc.startedUid node ≠ 0#32 ∨ Within sysAdmin policy) ∧
      ((∀ cap, (proc.execReplace node).hasCapability cap = true → Within cap policy) ↔
        proc.startedUid node ≠ 0#32 ∨ Within sysAdmin policy)) ∧
    ∀ mask, Within mask sysAdmin → ((∀ cap, Within cap mask →
          (Proc.capability proc .drop mask).2.hasCapability cap = false) ↔
        proc.uid ≠ 0#32 ∨ mask = 0#32) ∧
      ∀ calls, proc.uid ≠ 0#32 → RunKeepsDropped mask (Proc.capability proc .drop mask).2 calls →
        ∀ cap, Within cap mask →
          (run CredCall.perform (Proc.capability proc .drop mask).2
            calls).hasCapability cap = false := by
  refine ⟨fun node policy hpol => ⟨?_, ?_⟩, fun mask hmask => ⟨?_, ?_⟩⟩
  · rw [← spawnChild_uid]
    exact hasCapability_within_iff (spawnChild_caps_within hpol proc)
  · rw [← execReplace_uid]
    exact hasCapability_within_iff (execReplace_caps_within hpol proc)
  · exact proc.drop_effective_iff hmask
  · intro calls huid hcalls cap hcap
    have hlacks := run_preserves (Lacks · mask) (fun _ _ hlacks hcall => hlacks.perform hcall)
      (lacks_drop huid hmask) hcalls
    exact hlacks.hasCapability hcap

end Process

/-- A program with a policy that allows nothing. -/
def sealedProgram : ExecNode := { plainProgram with mode := 0o755#32 ||| 1#32 <<< 31 }

/-- A user runs a sealed program, drops a capability and starts another program
in its place: both restrictions hold. -/
theorem restrictions_effective_user :
    (∀ cap, (userProcess.spawnChild sealedProgram).hasCapability cap = true → Within cap 0#32) ∧
    (∀ cap, (userProcess.execReplace sealedProgram).hasCapability cap = true → Within cap 0#32) ∧
    (run CredCall.perform (capability userProcess .drop Capability.power.mask).2
      [.identity .push 0#32, .spawn true true plainProgram, .identity .pop 0#32,
        .execReplace plainProgram]).hasCapability Capability.power.mask = false := by
  obtain ⟨hpol, hdrop⟩ := Process.restrictions_effective_iff userProcess
  obtain ⟨hspawn, hexec⟩ := hpol sealedProgram 0#32 (by decide)
  have huid : userProcess.startedUid sealedProgram ≠ 0#32 := by decide
  refine ⟨hspawn.mpr (.inl huid), hexec.mpr (.inl huid), ?_⟩
  refine (hdrop Capability.power.mask (by decide)).2 _ (by decide) ?_ _ (Mask.within_refl _)
  refine ⟨nofun, trivial, fun _ saved hsaved => ?_, ?_, trivial⟩
  · cases hsaved
    decide
  · rintro ⟨gid, hsetuid⟩
    cases hsetuid

/-- The first process, which runs as the super user, keeps the right to power
the machine off through the policy of a sealed program and through a drop. -/
theorem superuser_keeps_power :
    (Process.prepareSlot none).Reachable ∧ sealedProgram.capPolicyMask = some 0#32 ∧
    ((Process.prepareSlot none).spawnChild sealedProgram).hasCapability
      Capability.power.mask = true ∧
    ((Process.prepareSlot none).execReplace sealedProgram).hasCapability
      Capability.power.mask = true ∧
    (capability (Process.prepareSlot none) .drop Capability.power.mask).2.hasCapability
      Capability.power.mask = true := by
  refine ⟨.boot, ?_⟩
  decide

end NexOS.Proc
