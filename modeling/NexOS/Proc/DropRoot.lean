import NexOS.Proc.Restrictions

/-! # Giving up the super user

`SYS_IDENTITY_OP_DROP_USER` turns the super user into an ordinary user without
capabilities. The saved identities stay, and returning to one of them is the
documented way back: a shell saves its identity before it switches the user. So
the drop is final for every process that comes out of the caller except through a
set-uid file or through an identity that was saved before the drop.
-/

namespace NexOS.Proc

open GuardedRuns

namespace Process

/-- A process that comes out of `start` without a set-uid file and without a
return to an identity that `start` had saved already. The number counts how many
of the saved identities are still those of `start`. -/
inductive Outcome (start : Process) : Process → Nat → Prop
  | start : Outcome start start start.identityStack.length
  | capability {proc : Process} {older : Nat} (op : CapOp) (mask : Word)
      (hproc : Outcome start proc older) : Outcome start (capability proc op mask).2 older
  | identity {proc : Process} {older : Nat} (op : IdentityOp) (uid : Word)
      (hproc : Outcome start proc older)
      (hpop : op = .pop → proc.identityStack.length = older → older = 0) :
      Outcome start (identity proc op uid).2 older
  | spawner {proc : Process} {older : Nat} (slotFree imageLoads : Bool) (node : ExecNode)
      (hproc : Outcome start proc older) :
      Outcome start (proc.jobSpawn slotFree imageLoads node).2 older
  | spawned {proc child : Process} {older : Nat} (slotFree imageLoads : Bool) (node : ExecNode)
      (hproc : Outcome start proc older) (hplain : node.setuid = none)
      (hchild : (proc.jobSpawn slotFree imageLoads node).1 = some child) :
      Outcome start child 0
  | forked {proc : Process} {older : Nat} (hproc : Outcome start proc older) :
      Outcome start proc.forkChild 0
  | replaced {proc : Process} {older : Nat} (node : ExecNode) (hproc : Outcome start proc older)
      (hplain : node.setuid = none) : Outcome start (proc.execReplace node) older

end Process

lemma ExecNode.policyCapabilities_zero (node : ExecNode) : node.policyCapabilities 0#32 = 0#32 := by
  rw [← (node.policyCapabilities_within 0#32).and_eq, BitVec.and_zero]

/-- A saved identity without any right. -/
def IdentityContext.Powerless (saved : IdentityContext) : Prop :=
  saved.uid ≠ 0#32 ∧ saved.caps = 0#32

namespace Process

/-- An ordinary user without capabilities, who keeps none for a child and saved
no other identity since the drop. -/
structure Powerless (proc : Process) (older : Nat) : Prop where
  uid : proc.uid ≠ 0#32
  caps : proc.caps = 0#32
  pending : proc.nextSpawnCapsSet = true → proc.nextSpawnCaps = 0#32
  saved : ∃ newer rest, proc.identityStack = newer ++ rest ∧ rest.length = older ∧
    ∀ context ∈ newer, context.Powerless

variable {proc : Process} {older : Nat} (hpower : proc.Powerless older)

include hpower

lemma Powerless.lacks : proc.Lacks (BitVec.allOnes 32) :=
  ⟨hpower.uid, by rw [hpower.caps, BitVec.zero_and]⟩

lemma Powerless.capabilities : proc.capabilities = 0#32 := by
  rw [capabilities_of_uid_ne_zero hpower.uid, hpower.caps]

lemma Powerless.hasCapability (cap : Word) : proc.hasCapability cap = false :=
  hpower.lacks.hasCapability (Mask.within_iff.mpr fun i hset => by
    rw [BitVec.getLsbD_allOnes]
    exact decide_eq_true (BitVec.lt_of_getLsbD hset))

omit hpower

/-- A process without a pending set and without saved identities. -/
lemma powerless_of_fresh (huid : proc.uid ≠ 0#32) (hcaps : proc.caps = 0#32)
    (hpend : proc.nextSpawnCapsSet = false) (hstack : proc.identityStack = []) :
    proc.Powerless 0 where
  uid := huid
  caps := hcaps
  pending hset := by
    rw [hpend] at hset
    cases hset
  saved := ⟨[], [], hstack, rfl, by simp⟩

include hpower

/-- Storing the empty set once more. -/
lemma Powerless.setCapabilities {caps : Word}
    (hcaps : caps = 0#32) : (proc.setCapabilities caps).Powerless older where
  uid := hpower.uid
  caps := by rw [setCapabilities_caps, hcaps, BitVec.zero_and]
  pending := hpower.pending
  saved := hpower.saved

lemma Powerless.clearNextSpawnCapabilities : proc.clearNextSpawnCapabilities.Powerless older where
  uid := hpower.uid
  caps := hpower.caps
  pending _ := rfl
  saved := hpower.saved

lemma Powerless.capability (op : CapOp) (mask : Word) :
    (Proc.capability proc op mask).2.Powerless older := by
  unfold Proc.capability
  split
  · exact hpower
  cases op with
  | get => exact hpower
  | drop =>
    apply hpower.setCapabilities
    rw [hpower.capabilities, BitVec.zero_and]
  | grant =>
    dsimp only
    rw [if_neg (Bool.eq_false_iff.mp (hpower.hasCapability _))]
    exact hpower
  | spawnSet =>
    dsimp only
    split
    · exact hpower
    next hcov =>
      -- Only the empty mask is covered by no capabilities at all.
      have hwithin : Mask.Within mask proc.capabilities := not_not.mp hcov
      have hmask : mask = 0#32 := by
        rw [← hwithin.and_eq, hpower.capabilities, BitVec.and_zero]
      refine ⟨hpower.uid, hpower.caps, fun _ => ?_, hpower.saved⟩
      simp [setNextSpawnCapabilities, hmask]
  | spawnClear => exact hpower.clearNextSpawnCapabilities
  | spawnGet => exact hpower
  | authGrant =>
    dsimp only
    rw [if_pos hpower.uid]
    exact hpower

lemma Powerless.push {next : Process}
    (hpush : proc.identityPush = some next) : next.Powerless older := by
  obtain ⟨huid, hcaps, hpend, hset, hstack⟩ := identityPush_fields hpush
  obtain ⟨newer, rest, hsplit, hrest, hnewer⟩ := hpower.saved
  refine ⟨huid ▸ hpower.uid, hcaps ▸ hpower.caps, ?_, ?_⟩
  · rw [hset, hpend]
    exact hpower.pending
  · refine ⟨_ :: newer, rest, by rw [hstack, hsplit]; rfl, hrest, ?_⟩
    rw [List.forall_mem_cons]
    exact ⟨⟨hpower.uid, hpower.caps⟩, hnewer⟩

lemma Powerless.pop {next : Process} (hpop : proc.identityPop = some next)
    (hnew : proc.identityStack.length = older → older = 0) : next.Powerless older := by
  obtain ⟨context, tail, hstack, huid, hcaps, hpend, hset, htail⟩ := identityPop_fields hpop
  obtain ⟨newer, rest, hsplit, hrest, hnewer⟩ := hpower.saved
  cases newer with
  | nil =>
    -- The innermost saved identity is older than the drop: excluded.
    rw [List.nil_append] at hsplit
    have hzero := hnew (by rw [hsplit, hrest])
    rw [← hrest, List.length_eq_zero_iff] at hzero
    rw [hzero, hstack] at hsplit
    cases hsplit
  | cons head newer =>
    rw [hstack, List.cons_append, List.cons.injEq] at hsplit
    obtain ⟨rfl, hrestStack⟩ := hsplit
    rw [List.forall_mem_cons] at hnewer
    refine ⟨huid ▸ hnewer.1.1, hcaps ▸ hnewer.1.2, ?_, ?_⟩
    · rw [hset, hpend]
      exact hpower.pending
    · exact ⟨newer, rest, htail.trans hrestStack, hrest, hnewer.2⟩

lemma Powerless.identity {op : IdentityOp} (uid : Word)
    (hnew : op = .pop → proc.identityStack.length = older → older = 0) :
    (Proc.identity proc op uid).2.Powerless older := by
  unfold Proc.identity
  cases op with
  | dropUser =>
    rw [if_pos hpower.uid]
    exact hpower
  | authRoot =>
    dsimp only
    rw [if_pos hpower.uid]
    exact hpower
  | push =>
    dsimp only
    split
    next next hpush => exact hpower.push hpush
    · exact hpower
  | pop =>
    dsimp only
    split
    next next hpop => exact hpower.pop hpop (hnew rfl)
    · exact hpower

lemma Powerless.nextSpawnCapabilities : proc.nextSpawnCapabilities proc.capabilities = 0#32 := by
  unfold Process.nextSpawnCapabilities
  split
  next hset => exact hpower.pending hset
  · exact hpower.capabilities

lemma Powerless.spawnChild {node : ExecNode}
    (hplain : node.setuid = none) : (proc.spawnChild node).Powerless 0 := by
  have hroot : ¬node.SetuidRoot := fun ⟨_, hsetuid⟩ => by
    rw [hplain] at hsetuid
    cases hsetuid
  apply powerless_of_fresh (spawnChild_uid_ne_zero hroot hpower.uid)
  · rw [spawnChild_caps proc node hroot, hpower.nextSpawnCapabilities]
    exact node.policyCapabilities_zero
  all_goals
    unfold Process.spawnChild applyExecIdentity
    rw [hplain]
    rfl

lemma Powerless.forkChild : proc.forkChild.Powerless 0 := by
  refine powerless_of_fresh hpower.uid ?_ rfl rfl
  change proc.capabilities &&& Capability.sysAdmin = 0#32
  rw [hpower.capabilities, BitVec.zero_and]

lemma Powerless.execReplace {node : ExecNode}
    (hplain : node.setuid = none) : (proc.execReplace node).Powerless older := by
  unfold Process.execReplace
  rw [hplain]
  apply hpower.setCapabilities
  rw [hpower.capabilities]
  exact node.policyCapabilities_zero

omit hpower

/-- Everything that comes out of a powerless process is powerless. -/
lemma Powerless.outcome {start : Process}
    (hstart : start.Powerless start.identityStack.length) (hproc : Outcome start proc older) :
    proc.Powerless older := by
  induction hproc with
  | start => exact hstart
  | capability op mask _ ih => exact ih.capability op mask
  | identity op uid _ hpop ih => exact ih.identity uid hpop
  | spawner slotFree imageLoads node _ ih =>
    unfold jobSpawn
    split
    · exact ih.clearNextSpawnCapabilities
    · exact ih
  | spawned slotFree imageLoads node _ hplain hchild ih =>
    cases slotFree <;> cases imageLoads <;> cases hchild
    exact ih.spawnChild hplain
  | forked _ ih => exact ih.forkChild
  | replaced node _ hplain ih => exact ih.execReplace hplain

/-- A successful drop leaves a powerless process. -/
lemma powerless_dropUser {uid : Word} (hdrop : (Proc.identity proc .dropUser uid).1 = .ok ()) :
    (Proc.identity proc .dropUser uid).2.Powerless
      (Proc.identity proc .dropUser uid).2.identityStack.length := by
  unfold Proc.identity at hdrop ⊢
  dsimp only at hdrop ⊢
  split at hdrop
  · cases hdrop
  next hroot =>
    rw [if_neg hroot]
    refine ⟨?_, ?_, fun _ => rfl, [], _, rfl, rfl, by simp⟩
    · change (if uid = 0#32 then 1000#32 else uid) ≠ 0#32
      split
      · decide
      next hne => exact hne
    · exact BitVec.zero_and

/-- Dropping the super user is final: whatever comes out of the process by calls,
forks, spawns and new images is an ordinary user without capabilities, as long as
no set-uid file is executed and no identity from before the drop is restored. -/
theorem dropUser_final {uid : Word} (hdrop : (Proc.identity proc .dropUser uid).1 = .ok ())
    {later : Process} {older : Nat}
    (hlater : Outcome (Proc.identity proc .dropUser uid).2 later older) :
    later.uid ≠ 0#32 ∧ later.capabilities = 0#32 := by
  have hpower := (powerless_dropUser hdrop).outcome hlater
  exact ⟨hpower.uid, hpower.capabilities⟩

/-- The first process drops the super user, saves and restores the new identity
and starts a program. -/
theorem dropUser_final_child : (Process.spawnChild (run CredCall.perform (prepareSlot none)
      [.identity .dropUser 0#32, .identity .push 0#32, .identity .pop 0#32])
      plainProgram).uid ≠ 0#32 := by
  have hstart :
      Outcome (run CredCall.perform (prepareSlot none) [.identity .dropUser 0#32]) _ 0 := .start
  have hpop := (hstart.identity .push 0#32 nofun).identity .pop 0#32 (fun _ hlen => by
    cases hlen)
  exact (dropUser_final rfl (hpop.spawned true true plainProgram rfl rfl)).1

/-- A process that saves its identity, drops the super user and returns is the
super user again. -/
theorem drop_undone_by_pop :
    (Proc.identity (run CredCall.perform (prepareSlot none) [.identity .push 0#32]) .dropUser
      1000#32).1 = .ok () ∧
    (run CredCall.perform (prepareSlot none)
      [.identity .push 0#32, .identity .dropUser 1000#32, .identity .pop 0#32]).uid = 0#32 :=
  ⟨rfl, rfl⟩

end Process

end NexOS.Proc
