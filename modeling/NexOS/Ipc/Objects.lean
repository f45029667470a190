import NexOS.Lib.NamedSlots

/-! # Shared memory objects and message queues

The two tables of named IPC objects: `g_shm_objects` in
`kernel/mem/address_space_core.c` and `g_syscall_common_mq` in
`kernel/sys/syscall_common_request_core.c`. Both give out the number of a slot plus one
as the handle of an object, and check a handle only for a slot that is in use.

What the calls get from elsewhere is an argument: the frames that the page allocator
returns, how far mapping a range gets, and whether copies from and to user memory
succeed.
-/

namespace NexOS.Ipc

open NamedSlots

/-! ## Shared memory -/

def pageSize : UInt64 := 4096

/-- `USER_MMAP_END - USER_MMAP_BASE` of the 64-bit kernel. -/
def mmapWindow : UInt64 := 0x0000008001800000 - 0x0000008001000000

/-- `align_up` to the page size, in 64 bits. -/
def alignUp (value : UInt64) : UInt64 := (value + (pageSize - 1)) &&& ~~~(pageSize - 1)

/-- The rest of `struct addrspace_shm_object`; `page_count` is the number of pages. -/
structure ShmBody where
  mappingRefs : UInt16
  pages : List UInt64
  pidRefs : List (UInt32 × UInt16)
  deriving DecidableEq

abbrev ShmObject : Type := Slot ShmBody

/-- A slot after `memset`. -/
def ShmObject.cleared : ShmObject := ⟨false, false, [], 0, ⟨0, [], List.replicate 16 (0, 0)⟩⟩

/-- `addrspace_shm_destroy`, without the release of the frames. -/
def ShmObject.destroy (object : ShmObject) : ShmObject :=
  if object.used then .cleared else object

/-- The step that ends every release: an unlinked object without mappings goes. -/
def ShmObject.destroyIfUnused (object : ShmObject) : ShmObject :=
  if !object.linked && object.body.mappingRefs = 0 then object.destroy else object

/-- `addrspace_shm_note_pid_ref` on the table of pids. -/
def notePidRef (refs : List (UInt32 × UInt16)) (pid : UInt32) : List (UInt32 × UInt16) :=
  if pid = 0 then refs
  else match refs.findIdx? fun ref => ref.1 = pid with
    | some i => refs.modify i fun ref => (ref.1, if ref.2 ≠ 0xffff then ref.2 + 1 else ref.2)
    | none =>
      match refs.findIdx? fun ref => ref.1 = 0 with
      | some i => refs.set i (pid, 1)
      | none => refs

/-- One mapping less of a process. -/
def dropPidRef (refs : List (UInt32 × UInt16)) (pid : UInt32) : List (UInt32 × UInt16) :=
  if pid = 0 then refs
  else match refs.findIdx? fun ref => ref.1 = pid with
    | some i => refs.modify i fun ref => if 1 < ref.2 then (ref.1, ref.2 - 1) else (0, 0)
    | none => refs

/-- A process maps the object. -/
def ShmObject.attach (pid : UInt32) (object : ShmObject) : ShmObject :=
  { object with body := { object.body with
      mappingRefs := object.body.mappingRefs + 1
      pidRefs := notePidRef object.body.pidRefs pid } }

/-- `addrspace_release_shared_ref_for_pid` on the object. -/
def ShmObject.releaseRef (pid : UInt32) (object : ShmObject) : ShmObject :=
  if !object.used || object.body.mappingRefs = 0 then object
  else ShmObject.destroyIfUnused { object with body := { object.body with
      mappingRefs := object.body.mappingRefs - 1
      pidRefs := dropPidRef object.body.pidRefs pid } }

/-- The references of one table entry go when its pid does. -/
def releaseEntry (pid : UInt32) (body : ShmBody) (j : Nat) : ShmBody :=
  match body.pidRefs[j]? with
  | none => body
  | some (owner, refs) =>
    if owner ≠ pid then body
    else
      { body with
        pidRefs := body.pidRefs.set j (0, 0)
        mappingRefs := if body.mappingRefs < refs then 0 else body.mappingRefs - refs }

/-- `addrspace_shm_release_pid_refs` on one object. -/
def ShmObject.releasePid (pid : UInt32) (object : ShmObject) : ShmObject :=
  if pid = 0 || !object.used then object
  else ShmObject.destroyIfUnused { object with
      body := (List.range 16).foldl (releaseEntry pid) object.body }

/-- The shared memory objects of the kernel. -/
abbrev ShmTable : Type := List ShmObject

/-- `SYS_SHM_CREATE`, `SYS_IPC_CREATE`. -/
def flagCreate : UInt32 := 1

/-- `SYS_SHM_EXCL`, `SYS_IPC_EXCL`. -/
def flagExcl : UInt32 := 2

/-- The pages of a new object; without all of them there is none. -/
def allocPages : Nat → List (UInt64 × Bool) → Option (List UInt64)
  | 0, _ => some []
  | _ + 1, [] => none
  | count + 1, (page, direct) :: rest =>
    if page = 0 || !direct then none else (allocPages count rest).map (page :: ·)

/-- `page_count` as `addrspace_shm_open` computes it, cut to 32 bits. -/
def shmPageCount (size : UInt64) : UInt32 := (alignUp size / pageSize).toUInt32

/-- The checks of `addrspace_shm_open` on the name. -/
def shmNameValid (name : List UInt8) : Bool := name ≠ [] && name.length ≤ 31

/-- Slot that `addrspace_shm_open` takes for a new object. -/
def shmOpenSlot (objects : ShmTable) (name : List UInt8) (size : UInt64) (flags : UInt32) :
    Option Nat :=
  if !shmNameValid name || (byName objects name).isSome then none
  else if flags &&& flagCreate = 0 || size = 0 then none
  else if shmPageCount size = 0 || 1024 < shmPageCount size then none
  else firstFree objects

/-- `addrspace_shm_open`: the handle and the table. The serial number is the one a new
object gets. -/
def shmOpen (objects : ShmTable) (serial : Nat) (name : List UInt8) (size : UInt64)
    (flags : UInt32) (frames : List (UInt64 × Bool)) : Option Nat × ShmTable :=
  if !shmNameValid name then (none, objects)
  else match byName objects name with
    | some index =>
      if flags &&& flagCreate ≠ 0 && flags &&& flagExcl ≠ 0 then (none, objects)
      else (some (index + 1), objects)
    | none =>
      match shmOpenSlot objects name size flags with
      | none => (none, objects)
      | some index =>
        match allocPages (shmPageCount size).toNat frames with
        | none => (none, objects.set index .cleared)
        | some pages =>
          (some (index + 1), objects.set index
            ⟨true, true, name, serial, ⟨0, pages, List.replicate 16 (0, 0)⟩⟩)

/-- An object loses its name. -/
def shmUnlink (objects : ShmTable) (name : List UInt8) : Bool × ShmTable :=
  match byName objects name with
  | none => (false, objects)
  | some index => (true, objects.modify index fun object =>
    ShmObject.destroyIfUnused { object with linked := false, name := [] })

/-- What `addrspace_mmap` reads for an object. -/
structure MmapRequest where
  length : UInt64
  flags : UInt32
  handle : UInt32
  offset : UInt64

/-- The object that a mapping asks for. -/
def mmapObject (objects : ShmTable) (request : MmapRequest) : Option Nat :=
  let rounded := alignUp request.length
  let isPrivate := request.flags &&& 1 ≠ 0
  let shared := request.flags &&& 2 ≠ 0
  let anonymous := request.flags &&& 4 ≠ 0
  if request.length = 0 || (!isPrivate && !shared) || (isPrivate && shared) then none
  else if rounded = 0 || mmapWindow < rounded then none
  else if anonymous || !shared || request.offset &&& (pageSize - 1) ≠ 0 then none
  else
    let firstPage := (request.offset / pageSize).toUInt32
    match ofHandle objects request.handle.toNat with
    | none => none
    | some index =>
      let pageCount := (objects[index]?.map fun object => object.body.pages.length).getD 0
      if pageCount < (firstPage.toUInt64 + rounded / pageSize).toNat then none else some index

/-- `addrspace_mmap` of a shared object: the slot it acts on and the table. A range is
found or not (`placed`), and so many pages of it are mapped before one fails. -/
def shmMmap (objects : ShmTable) (request : MmapRequest) (pid : UInt32) (placed : Bool)
    (mapped : Nat) : Option Nat × ShmTable :=
  match mmapObject objects request with
  | none => (none, objects)
  | some index =>
    let wanted := (alignUp request.length / pageSize).toNat
    if !placed then (none, objects)
    else if wanted ≤ mapped then
      (some index, objects.modify index (ShmObject.attach pid)^[wanted])
    else
      -- the pages mapped so far are unmapped again
      (none, objects.modify index fun object =>
        (ShmObject.releaseRef pid)^[mapped] ((ShmObject.attach pid)^[mapped] object))

/-! ## Message queues -/

/-- A message with its length. -/
structure Message where
  size : UInt16
  data : List UInt8
  deriving DecidableEq

/-- The rest of `struct syscall_common_message_queue`. -/
structure QueueBody where
  head : UInt8
  count : UInt8
  messages : List Message
  deriving DecidableEq

abbrev MessageQueue : Type := Slot QueueBody

def MessageQueue.cleared : MessageQueue := ⟨false, false, [], 0, ⟨0, 0, List.replicate 16 ⟨0, []⟩⟩⟩

/-- The message queues of the kernel. -/
abbrev QueueTable : Type := List MessageQueue

/-- An unlinked queue goes with its last message. -/
def MessageQueue.destroyIfUnlinkedEmpty (queue : MessageQueue) : MessageQueue :=
  if queue.used && !queue.linked && queue.body.count = 0 then .cleared else queue

/-- `syscall_common_ipc_copy_name`, on what `copy_user_cstr` leaves in its buffer of 32 bytes: a
longer name has been cut to 31 (a 32-bit process is refused it), and the empty name is refused. -/
def ipcNameValid (name : List UInt8) : Bool := name ≠ [] && name.length ≤ 31

/-- Slot that `syscall_common_mq_open_transfer` takes for a new queue. -/
def mqOpenSlot (queues : QueueTable) (name : List UInt8) (flags : UInt32) : Option Nat :=
  if !ipcNameValid name || (byName queues name).isSome || flags &&& flagCreate = 0 then none
  else firstFree queues

/-- `syscall_common_mq_open_transfer`. -/
def mqOpen (queues : QueueTable) (serial : Nat) (name : List UInt8) (flags : UInt32) :
    Option Nat × QueueTable :=
  if !ipcNameValid name then (none, queues)
  else match byName queues name with
    | some index =>
      if flags &&& flagCreate ≠ 0 && flags &&& flagExcl ≠ 0 then (none, queues)
      else (some (index + 1), queues)
    | none =>
      match mqOpenSlot queues name flags with
      | none => (none, queues)
      | some index =>
        (some (index + 1), queues.set index
          ⟨true, true, name, serial, ⟨0, 0, List.replicate 16 ⟨0, []⟩⟩⟩)

/-- `syscall_common_mq_unlink_transfer`. -/
def mqUnlink (queues : QueueTable) (name : List UInt8) : Bool × QueueTable :=
  if !ipcNameValid name then (false, queues)
  else match byName queues name with
    | none => (false, queues)
    | some index => (true, queues.modify index fun queue =>
      MessageQueue.destroyIfUnlinkedEmpty { queue with linked := false, name := [] })

/-- A message behind the last one. -/
def QueueBody.push (body : QueueBody) (data : List UInt8) : QueueBody :=
  let tail := (body.head.toNat + body.count.toNat) % 16
  { body with
    messages := body.messages.set tail ⟨data.length.toUInt16, data⟩
    count := body.count + 1 }

/-- The first message is taken off. -/
def QueueBody.pop (body : QueueBody) : QueueBody :=
  { body with head := ((body.head.toNat + 1) % 16).toUInt8, count := body.count - 1 }

/-- `syscall_common_mq_send_transfer`: the slot it acts on and the table; `copied` says
whether the copies from user memory succeed. The bytes of a copy that fails are behind
the tail and nobody reads them. -/
def mqSend (queues : QueueTable) (handle : UInt32) (data : List UInt8) (copied : Bool) :
    Option Nat × QueueTable :=
  match ofHandle queues handle.toNat with
  | none => (none, queues)
  | some index =>
    let full := (queues[index]?.map fun queue => queue.body.count).getD 0 = 16
    if !copied || data = [] || 256 < data.length || full then (none, queues)
    else (some index, queues.modify index fun queue =>
      { queue with body := queue.body.push data })

def Message.bytes (message : Message) : List UInt8 := message.data.take message.size.toNat

/-- The first message. -/
def QueueBody.front (body : QueueBody) : Message := body.messages.getD body.head.toNat ⟨0, []⟩

/-- `syscall_common_mq_receive_transfer` with a buffer of the given size: the slot it acts on, the
size that it returns and the bytes that it copies to the buffer. -/
def mqReceive (queues : QueueTable) (handle size : UInt32) (copied : Bool) :
    Option (Nat × UInt16 × List UInt8) × QueueTable :=
  match ofHandle queues handle.toNat with
  | none => (none, queues)
  | some index =>
    let body := (queues[index]?.map Slot.body).getD ⟨0, 0, []⟩
    let message := body.front
    if !copied || size = 0 || body.count = 0 || size.toNat < message.size.toNat then
      (none, queues)
    else (some (index, message.size, message.bytes), queues.modify index fun queue =>
      MessageQueue.destroyIfUnlinkedEmpty { queue with body := queue.body.pop })

end NexOS.Ipc
