import Mathlib

/-! # Registration of block devices

The table of registered devices and the fields of a device that decide whether it
may be used: its state, the removal flag, the protection of the root file system
and the count of references. Each definition is one critical section; removal and
registration consist of several, and sections of other calls may come between
them.
-/

namespace NexOS.Block

open Function

/-- `enum blockdev_state`. -/
inductive DeviceState where
  | probing
  | online
  | recovering
  | offline
  | removing
  deriving DecidableEq, Repr

/-- The fields of `struct block_device` that govern its use. -/
structure DeviceInfo where
  state : DeviceState
  removing : Bool
  rootfsProtected : Bool
  ioRefs : BitVec 32
  deriving DecidableEq, Repr

/-- `BLOCKDEV_MAX`. -/
def deviceMax : Nat := 16

/-- Where a call of `blockdev_unregister` stands. -/
inductive Unregister (Dev : Type*) where
  | idle
  /-- The device is marked as removing. -/
  | marked (dev : Dev)
  /-- The device was seen without references. -/
  | checked (dev : Dev)
  deriving DecidableEq

/-- Where a call of `blockdev_register` stands. -/
inductive Register (Dev : Type*) where
  | idle
  /-- The device was not found and there was room for it. -/
  | begun (dev : Dev)
  /-- The fields of the device are set up. -/
  | prepared (dev : Dev)
  deriving DecidableEq

variable {Dev : Type*} [DecidableEq Dev]

/-- The device that is being removed. -/
def Unregister.target : Unregister Dev → Option Dev
  | .idle => none
  | .marked dev => some dev
  | .checked dev => some dev

/-- The table of devices up to `device_count`, the devices, and the calls under
way. `marked` remembers that a device was marked by `blockdev_unregister` and has
not been set up for registration since. -/
structure Registry (Dev : Type*) where
  slots : List (Option Dev)
  info : Dev → DeviceInfo
  unregisters : Nat → Unregister Dev
  registers : Nat → Register Dev
  marked : Dev → Bool

namespace Registry

/-- The device is in the list. -/
def published (reg : Registry Dev) (dev : Dev) : Bool := decide (some dev ∈ reg.slots)

def setInfo (reg : Registry Dev) (dev : Dev) (info : DeviceInfo) : Registry Dev :=
  { reg with info := update reg.info dev info }

/-- One more user of the device; the count wraps. -/
def addRef (reg : Registry Dev) (dev : Dev) : Registry Dev :=
  reg.setInfo dev { reg.info dev with ioRefs := (reg.info dev).ioRefs + 1#32 }

/-- The test of `blockdev_io_begin` and `blockdev_acquire_device`. -/
def usable (info : DeviceInfo) : Bool :=
  !info.removing && (decide (info.state = .online) || info.rootfsProtected)

/-- `blockdev_io_begin`. A device that is not in the table counts as one that is
not yet published, and is used without a reference. -/
def ioBegin (reg : Registry Dev) (dev : Dev) : Option Dev × Registry Dev :=
  if reg.published dev then
    if usable (reg.info dev) then (some dev, reg.addRef dev) else (none, reg)
  else (some dev, reg)

/-- `blockdev_io_end` and `blockdev_release`. -/
def release (reg : Registry Dev) (dev : Dev) : Registry Dev :=
  if (reg.info dev).ioRefs ≠ 0#32 then
    reg.setInfo dev { reg.info dev with ioRefs := (reg.info dev).ioRefs - 1#32 }
  else reg

/-- An online device is handed out, with one more user. -/
def acquire (reg : Registry Dev) (index : Nat) : Option Dev × Registry Dev :=
  match reg.slots[index]? with
  | some (some dev) =>
    if (reg.info dev).removing ∨ (reg.info dev).state ≠ .online then (none, reg)
    else (some dev, reg.addRef dev)
  | _ => (none, reg)

/-- The same for a device that the caller knows already. -/
def acquireDevice (reg : Registry Dev) (dev : Dev) : Option Dev × Registry Dev :=
  if reg.published dev && usable (reg.info dev) then (some dev, reg.addRef dev) else (none, reg)

/-- The first section of `blockdev_get_info`. -/
def getInfo (reg : Registry Dev) (index : Nat) : Option Dev × Registry Dev :=
  match reg.slots[index]? with
  | some (some dev) =>
    if (reg.info dev).removing then (none, reg) else (some dev, reg.addRef dev)
  | _ => (none, reg)

/-- The first section of `blockdev_reset`, for a device with a reset function. -/
def resetBegin (reg : Registry Dev) (dev : Dev) : Option Dev × Registry Dev :=
  if reg.published dev ∧ (reg.info dev).removing = false ∧ (reg.info dev).state = .online then
    (some dev, reg.setInfo dev
      { reg.info dev with ioRefs := (reg.info dev).ioRefs + 1#32, state := .recovering })
  else (none, reg)

/-- The section of `blockdev_reset` after the driver's reset. -/
def resetEnd (reg : Registry Dev) (dev : Dev) (ok : Bool) : Registry Dev :=
  if (reg.info dev).removing then reg
  else reg.setInfo dev
    { reg.info dev with
      state := if ok || (reg.info dev).rootfsProtected then .online else .offline }

/-- A protected device goes back online. -/
def restore (info : DeviceInfo) : DeviceInfo :=
  { info with
    removing := false
    state := if info.state = .offline ∨ info.state = .removing then .online else info.state }

/-- A protected device is not taken offline. -/
def setState (reg : Registry Dev) (dev : Dev) (state : DeviceState) : Registry Dev :=
  if (reg.info dev).rootfsProtected ∧ (state = .offline ∨ state = .removing) then
    reg.setInfo dev (restore (reg.info dev))
  else
    reg.setInfo dev
      { reg.info dev with
        state := state
        removing := if state = .removing then true else (reg.info dev).removing }

/-- Protection also undoes a removal under way. -/
def setRootfsProtected (reg : Registry Dev) (dev : Dev) (protect : Bool) : Registry Dev :=
  let info := { reg.info dev with rootfsProtected := protect }
  if protect ∧ (info.state = .offline ∨ info.state = .removing) then
    reg.setInfo dev (restore info)
  else reg.setInfo dev info

/-- The first section of `blockdev_register`. -/
def registerBegin (reg : Registry Dev) (caller : Nat) (dev : Dev) : Registry Dev :=
  if reg.published dev ∨ (none ∉ reg.slots ∧ deviceMax ≤ reg.slots.length) then reg
  else { reg with registers := update reg.registers caller (.begun dev) }

/-- `blockdev_register` sets the fields of the device up without the lock. Doing so
to a device that is still in its slot is no registration of it. -/
def registerPrepare (reg : Registry Dev) (caller : Nat) : Registry Dev :=
  match reg.registers caller with
  | .begun dev =>
    { reg.setInfo dev ⟨.probing, false, false, 0#32⟩ with
      registers := update reg.registers caller (.prepared dev)
      marked := if reg.published dev then reg.marked else update reg.marked dev false }
  | _ => reg

/-- Put a device into the first empty slot, or behind the last one. -/
def place (slots : List (Option Dev)) (dev : Dev) : List (Option Dev) :=
  match slots.findIdx? Option.isNone with
  | some index => slots.set index (some dev)
  | none => slots ++ [some dev]

/-- The last section of `blockdev_register`. -/
def registerPublish (reg : Registry Dev) (caller : Nat) : Registry Dev :=
  match reg.registers caller with
  | .prepared dev =>
    let done := { reg with registers := update reg.registers caller .idle }
    if reg.published dev ∨ (none ∉ reg.slots ∧ deviceMax ≤ reg.slots.length) then done
    else
      { done.setInfo dev { reg.info dev with removing := false, state := .online } with
        slots := place reg.slots dev
        marked := update reg.marked dev false }
  | _ => reg

/-- The first section of `blockdev_unregister`. -/
def unregisterMark (reg : Registry Dev) (caller : Nat) (dev : Dev) : Registry Dev :=
  if reg.published dev = false ∨ reg.unregisters caller ≠ .idle then reg
  else if (reg.info dev).rootfsProtected then reg.setInfo dev (restore (reg.info dev))
  else
    { reg.setInfo dev { reg.info dev with removing := true, state := .removing } with
      unregisters := update reg.unregisters caller (.marked dev)
      marked := update reg.marked dev true }

/-- The second section: a device with references is left to a later call. -/
def unregisterCheck (reg : Registry Dev) (caller : Nat) : Registry Dev :=
  match reg.unregisters caller with
  | .marked dev =>
    { reg with
      unregisters := update reg.unregisters caller
        (if (reg.info dev).ioRefs ≠ 0#32 then .idle else .checked dev) }
  | _ => reg

/-- Empty slots at the end of the table are given up. -/
def trim (slots : List (Option Dev)) : List (Option Dev) := slots.rdropWhile Option.isNone

/-- The last section of `blockdev_unregister`. -/
def unregisterClear (reg : Registry Dev) (caller : Nat) : Registry Dev :=
  match reg.unregisters caller with
  | .checked dev =>
    let done := { reg with unregisters := update reg.unregisters caller .idle }
    match reg.slots.findIdx? (fun slot => decide (slot = some dev)) with
    | none => done
    | some index =>
      { done.setInfo dev { reg.info dev with ioRefs := 0#32 } with
        slots := trim (reg.slots.set index none) }
  | _ => reg

end Registry

/-- The critical sections of the calls on block devices. -/
inductive Section (Dev : Type*) where
  | ioBegin (dev : Dev)
  | release (dev : Dev)
  | acquire (index : Nat)
  | acquireDevice (dev : Dev)
  | getInfo (index : Nat)
  | resetBegin (dev : Dev)
  | resetEnd (dev : Dev) (ok : Bool)
  | setState (dev : Dev) (state : DeviceState)
  | setRootfsProtected (dev : Dev) (protect : Bool)
  | registerBegin (caller : Nat) (dev : Dev)
  | registerPrepare (caller : Nat)
  | registerPublish (caller : Nat)
  | unregisterMark (caller : Nat) (dev : Dev)
  | unregisterCheck (caller : Nat)
  | unregisterClear (caller : Nat)

namespace Registry

/-- The device on which a section lets a new transfer or reference in, and the
registry afterwards. -/
def execute (reg : Registry Dev) : Section Dev → Option Dev × Registry Dev
  | .ioBegin dev => reg.ioBegin dev
  | .release dev => (none, reg.release dev)
  | .acquire index => reg.acquire index
  | .acquireDevice dev => reg.acquireDevice dev
  | .getInfo index => reg.getInfo index
  | .resetBegin dev => reg.resetBegin dev
  | .resetEnd dev ok => (none, reg.resetEnd dev ok)
  | .setState dev state => (none, reg.setState dev state)
  | .setRootfsProtected dev protect => (none, reg.setRootfsProtected dev protect)
  | .registerBegin caller dev => (none, reg.registerBegin caller dev)
  | .registerPrepare caller => (none, reg.registerPrepare caller)
  | .registerPublish caller => (none, reg.registerPublish caller)
  | .unregisterMark caller dev => (none, reg.unregisterMark caller dev)
  | .unregisterCheck caller => (none, reg.unregisterCheck caller)
  | .unregisterClear caller => (none, reg.unregisterClear caller)

/-- The device that a section hands out. -/
def admits (reg : Registry Dev) (sec : Section Dev) : Option Dev := (reg.execute sec).1

/-- The registry after a section. -/
def perform (reg : Registry Dev) (sec : Section Dev) : Registry Dev := (reg.execute sec).2

/-- The registry after `blockdev_init`, with zeroed devices. -/
def init : Registry Dev where
  slots := []
  info _ := ⟨.probing, false, false, 0#32⟩
  unregisters _ := .idle
  registers _ := .idle
  marked _ := false

end Registry

end NexOS.Block
