import NexOS.Lib.GuardedRuns

/-! # File tables and pipes

The descriptor tables of all processes, the global table of pipes, and the
functions that create, copy and give up descriptors. A descriptor refers to a
pipe by its slot in the global table. Each pipe counts its two ends in 8-bit
fields, which is all that decides when its slot becomes free.
-/

namespace NexOS.File

/-- `KERNEL_FILE_PIPE_READ` and `KERNEL_FILE_PIPE_WRITE`. -/
inductive PipeEnd where
  | read
  | write
  deriving DecidableEq, Repr

/-- `FILE_PIPE_MAX`. -/
abbrev PipeId := Fin 4

def pipeBufferSize : Nat := 65536

/-- `NOS_PATH_MAX`, the longest name that fits with its terminator. -/
def pathMax : Nat := 255

/-- A pipe with the counts of its ends. -/
structure FilePipe where
  used : Bool
  named : Bool
  linked : Bool
  readers : BitVec 8
  writers : BitVec 8
  readPos : Nat
  writePos : Nat
  count : Nat
  name : List Char
  buffer : Nat → BitVec 8

namespace FilePipe

/-- The count of an end, of 8 bits. -/
def ends (pipe : FilePipe) : PipeEnd → BitVec 8
  | .read => pipe.readers
  | .write => pipe.writers

/-- `file_pipe_reset`: the slot is free afterwards. -/
def reset (pipe : FilePipe) : FilePipe :=
  { pipe with
    used := false, named := false, linked := false, readers := 0#8, writers := 0#8
    readPos := 0, writePos := 0, count := 0, name := [] }

def clearData (pipe : FilePipe) : FilePipe := { pipe with readPos := 0, writePos := 0, count := 0 }

/-- A count does not go below zero. -/
def releaseEnd (pipe : FilePipe) : PipeEnd → FilePipe
  | .read => if pipe.readers ≠ 0#8 then { pipe with readers := pipe.readers - 1#8 } else pipe
  | .write => if pipe.writers ≠ 0#8 then { pipe with writers := pipe.writers - 1#8 } else pipe

def acquireEnd (pipe : FilePipe) : PipeEnd → FilePipe
  | .read => { pipe with readers := pipe.readers + 1#8 }
  | .write => { pipe with writers := pipe.writers + 1#8 }

/-- What `file_pipe_close` does to the pipe. -/
def close (pipe : FilePipe) (kind : PipeEnd) : FilePipe :=
  let released := pipe.releaseEnd kind
  if released.readers = 0#8 ∧ released.writers = 0#8 then
    if released.linked then released.clearData else released.reset
  else released

/-- The loop of `file_pipe_read`, with room for `size` more bytes. -/
def readLoop : Nat → FilePipe → List (BitVec 8) × FilePipe
  | 0, pipe => ([], pipe)
  | size + 1, pipe =>
    if pipe.count = 0 then ([], pipe)
    else
      let rest := readLoop size
        { pipe with readPos := (pipe.readPos + 1) % pipeBufferSize, count := pipe.count - 1 }
      (pipe.buffer pipe.readPos :: rest.1, rest.2)

/-- The loop of `file_pipe_write`. The result is the number of bytes taken. -/
def writeLoop : List (BitVec 8) → FilePipe → Nat × FilePipe
  | [], pipe => (0, pipe)
  | byte :: bytes, pipe =>
    if pipe.count < pipeBufferSize then
      let rest := writeLoop bytes
        { pipe with
          buffer := Function.update pipe.buffer pipe.writePos byte
          writePos := (pipe.writePos + 1) % pipeBufferSize
          count := pipe.count + 1 }
      (rest.1 + 1, rest.2)
    else (0, pipe)

end FilePipe

set_option linter.dupNamespace false in
/-- A descriptor: inactive, a pipe end, or a file of another kind. -/
inductive File where
  | none
  | other
  | pipe (kind : PipeEnd) (id : PipeId)
  deriving DecidableEq, Repr

/-- `NOS_PROCESS_SLOT_MAX`. -/
abbrev ProcSlot := Fin 32

/-- `NOS_PROCESS_FILE_MAX`. -/
abbrev Fd := Fin 16

/-- One entry of one process's descriptor table. -/
abbrev Cell := ProcSlot × Fd

/-- The pipes, and the descriptors of all processes. -/
structure System where
  pipes : PipeId → FilePipe
  files : Cell → File

/-- What reading or writing a pipe returns: a byte count, or an error code. -/
inductive IoResult (α : Type) where
  | done (value : α)
  | wouldBlock
  | brokenPipe
  | error
  deriving DecidableEq, Repr

namespace System

/-- `file_table_alloc`: the first inactive descriptor from `start` on. -/
def tableAlloc (sys : System) (proc : ProcSlot) (start : Nat) : Option Fd :=
  (List.finRange 16).find? fun fd =>
    decide (start ≤ fd.val) && decide (sys.files (proc, fd) = .none)

/-- The first pipe that is not in use. -/
def findUnused (sys : System) : Option PipeId :=
  (List.finRange 4).find? fun id => !(sys.pipes id).used

/-- The linked pipe of this name. -/
def findNamed (sys : System) (path : List Char) : Option PipeId := (List.finRange 4).find? fun id =>
    (sys.pipes id).used && (sys.pipes id).named && (sys.pipes id).linked &&
      decide ((sys.pipes id).name = path)

def setFile (sys : System) (cell : Cell) (file : File) : System :=
  { sys with files := Function.update sys.files cell file }

def setPipe (sys : System) (id : PipeId) (pipe : FilePipe) : System :=
  { sys with pipes := Function.update sys.pipes id pipe }

/-- A descriptor is set to an end, which is counted. -/
def attach (sys : System) (cell : Cell) (kind : PipeEnd) (id : PipeId) : System :=
  (sys.setPipe id ((sys.pipes id).acquireEnd kind)).setFile cell (.pipe kind id)

/-- `file_discard`, and `file_close` of an active descriptor. -/
def discard (sys : System) (cell : Cell) : System :=
  match sys.files cell with
  | .none => sys
  | .other => sys.setFile cell .none
  | .pipe kind id => (sys.setPipe id ((sys.pipes id).close kind)).setFile cell .none

/-- `file_clone`: an inactive source leaves the destination alone. -/
def clone (sys : System) (dst src : Cell) : System :=
  if sys.files src = .none then sys
  else
    let cleared := sys.discard dst
    match cleared.files src with
    | .pipe kind id => cleared.attach dst kind id
    | file => cleared.setFile dst file

def dup2 (sys : System) (proc : ProcSlot) (src dst : Fd) : System :=
  if src = dst then sys
  else if sys.files (proc, src) = .none then sys
  else (sys.discard (proc, dst)).clone (proc, dst) (proc, src)

/-- `fs_service_open_stdio_alias`. -/
def openAlias (sys : System) (proc : ProcSlot) (src : Fd) : System :=
  match sys.tableAlloc proc 3 with
  | some fd => sys.clone (proc, fd) (proc, src)
  | none => sys

/-- A descriptor that is no pipe. -/
def openVfs (sys : System) (proc : ProcSlot) : System :=
  match sys.tableAlloc proc 3 with
  | some fd => sys.setFile (proc, fd) .other
  | none => sys

/-- `file_pipe_backend_init_pair`, on two inactive descriptors. -/
def initPair (sys : System) (readCell writeCell : Cell) : System :=
  match sys.findUnused with
  | none => sys
  | some id =>
    ((sys.setPipe id
      { (sys.pipes id).reset with used := true, readers := 1#8, writers := 1#8 }).setFile
        readCell (.pipe .read id)).setFile writeCell (.pipe .write id)

/-- `file_table_open_pipe_pair`. The second search starts over and meets the same
descriptor, so the write end is the next inactive one. -/
def openPipePair (sys : System) (proc : ProcSlot) : System :=
  match sys.tableAlloc proc 3 with
  | none => sys
  | some readFd =>
    match sys.tableAlloc proc (readFd.val + 1) with
    | none => sys
    | some writeFd => sys.initPair (proc, readFd) (proc, writeFd)

/-- A named pipe without users. -/
def createNamed (sys : System) (path : List Char) : System :=
  if path = [] ∨ (sys.findNamed path).isSome then sys
  else
    match sys.findUnused with
    | none => sys
    | some id =>
      sys.setPipe id
        { (sys.pipes id).reset with
          used := true, named := true, linked := true, name := path.take pathMax }

/-- The name goes; the pipe stays while it has users. -/
def unlinkNamed (sys : System) (path : List Char) : System :=
  match sys.findNamed path with
  | none => sys
  | some id =>
    let unlinked := { sys.pipes id with linked := false, name := [] }
    sys.setPipe id
      (if unlinked.readers = 0#8 ∧ unlinked.writers = 0#8 then unlinked.reset else unlinked)

/-- `file_table_open_named_pipe`. -/
def openNamed (sys : System) (proc : ProcSlot) (path : List Char) (kind : PipeEnd) : System :=
  match sys.tableAlloc proc 3, sys.findNamed path with
  | some fd, some id => sys.attach (proc, fd) kind id
  | _, _ => sys

/-- `file_read` of a pipe descriptor. -/
def read (sys : System) (cell : Cell) (size : Nat) : IoResult (List (BitVec 8)) × System :=
  match sys.files cell with
  | .pipe .read id =>
    let pipe := sys.pipes id
    if size = 0 then (.done [], sys)
    else if pipe.count = 0 then
      (if pipe.writers = 0#8 then .done [] else .wouldBlock, sys)
    else
      let out := FilePipe.readLoop size pipe
      (.done out.1, sys.setPipe id out.2)
  | _ => (.error, sys)

/-- `file_write` of a pipe descriptor. -/
def write (sys : System) (cell : Cell) (bytes : List (BitVec 8)) : IoResult Nat × System :=
  match sys.files cell with
  | .pipe .write id =>
    let pipe := sys.pipes id
    if bytes = [] then (.done 0, sys)
    else if pipe.readers = 0#8 then (.brokenPipe, sys)
    else if pipeBufferSize ≤ pipe.count then (.wouldBlock, sys)
    else
      let out := FilePipe.writeLoop bytes pipe
      (.done out.1, sys.setPipe id out.2)
  | _ => (.error, sys)

/-- All descriptors of a process that exits. -/
def discardFiles (sys : System) (proc : ProcSlot) : System :=
  (List.finRange 16).foldl (fun sys fd => sys.discard (proc, fd)) sys

/-- `process_prepare_slot` of a process without a parent image: its table is
emptied and the first three descriptors become the console. -/
def initStdio (sys : System) (proc : ProcSlot) : System :=
  (((sys.discardFiles proc).setFile (proc, 0) .other).setFile (proc, 1) .other).setFile
    (proc, 2) .other

end System

/-! ## Steps and calls -/

/-- The functions of the file layer that change descriptors or pipes. -/
inductive Step where
  | pipe (proc : ProcSlot)
  | createNamed (path : List Char)
  | unlinkNamed (path : List Char)
  | openNamed (proc : ProcSlot) (path : List Char) (kind : PipeEnd)
  | openVfs (proc : ProcSlot)
  | openAlias (proc : ProcSlot) (src : Fd)
  | dup2 (proc : ProcSlot) (src dst : Fd)
  | clone (dst src : Cell)
  | discard (cell : Cell)
  | initStdio (proc : ProcSlot)
  | read (cell : Cell) (size : Nat)
  | write (cell : Cell) (bytes : List (BitVec 8))

namespace System

/-- One step on the system. -/
def perform (sys : System) : Step → System
  | .pipe proc => sys.openPipePair proc
  | .createNamed path => sys.createNamed path
  | .unlinkNamed path => sys.unlinkNamed path
  | .openNamed proc path kind => sys.openNamed proc path kind
  | .openVfs proc => sys.openVfs proc
  | .openAlias proc src => sys.openAlias proc src
  | .dup2 proc src dst => sys.dup2 proc src dst
  | .clone dst src => sys.clone dst src
  | .discard cell => sys.discard cell
  | .initStdio proc => sys.initStdio proc
  | .read cell size => (sys.read cell size).2
  | .write cell bytes => (sys.write cell bytes).2

def run (sys : System) (steps : List Step) : System := GuardedRuns.run perform sys steps

def boot : System where
  pipes _ := ⟨false, false, false, 0#8, 0#8, 0, 0, 0, [], fun _ => 0#8⟩
  files _ := .none

end System

/-- What processes do, as sequences of steps of the file layer. -/
inductive Call where
  /-- `SYS_CLOSE`, which refuses the first three descriptors. -/
  | close (proc : ProcSlot) (fd : Fd)
  /-- `process_prepare_slot` of a spawned child; a start that fails empties it again. -/
  | spawn (parent child : ProcSlot) (started : Bool)
  /-- A fork that may fail after the slot was prepared or after the copies. -/
  | fork (parent child : ProcSlot) (completed : Bool)
  /-- A new image keeps the first three descriptors. -/
  | execReplace (proc : ProcSlot)
  | exit (proc : ProcSlot)
  /-- Any other single step. -/
  | single (step : Step)

namespace Call

def discards (proc : ProcSlot) (start : Nat) : List Step :=
  ((List.finRange 16).filter fun fd => start ≤ fd.val).map fun fd => .discard (proc, fd)

/-- The child gets the descriptors of its parent. -/
def clones (parent child : ProcSlot) (stop : Nat) : List Step :=
  ((List.finRange 16).filter fun fd => fd.val < stop).map fun fd => .clone (child, fd) (parent, fd)

/-- The descriptors of a new process. -/
def prepareSlot (parent child : ProcSlot) : List Step :=
  discards child 0 ++ clones parent child 3 ++ discards child 3

/-- The steps of a call. -/
def steps : Call → List Step
  | .close proc fd => if fd.val ≤ 2 then [] else [.discard (proc, fd)]
  | .spawn parent child started =>
    prepareSlot parent child ++ if started then [] else discards child 0
  | .fork parent child completed =>
    prepareSlot parent child ++ clones parent child 16 ++
      if completed then [] else discards child 0
  | .execReplace proc => discards proc 3
  | .exit proc => discards proc 0
  | .single step => [step]

end Call

end NexOS.File
