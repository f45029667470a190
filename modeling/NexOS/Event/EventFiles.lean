import NexOS.Event.Formats

/-! # Event files

The queues, the one text buffer that all event files share, and the open handles. A read
formats a new text if the handle is at the start or behind the end of the text that is in
the buffer, or if that text belongs to another node. Otherwise it goes on in the buffer.
-/

namespace NexOS.Event

open List

/-- The files below `/event`. -/
inductive Node where
  | timer (json : Bool)
  | events (queue : Queue) (json : Bool)
  deriving DecidableEq

/-- `vfs_eventfs_is_json_node`. -/
def Node.isJson : Node → Bool
  | .timer json => json
  | .events _ json => json

/-- An open file: its node, with the cursor that the node has in this file, and its
offset. -/
structure Handle where
  node : Node
  cursor : Nat
  offset : Nat
  deriving DecidableEq

/-- The event queues, the shared text buffer and the open handles. -/
structure EventFiles where
  queues : (queue : Queue) → RingLog (Timed queue.Payload)
  lastButtons : Nat
  lastStatus : Option NetStatus
  text : List Char
  textNode : Option Node
  handles : List Handle

/-- The offset of a JSON file that was read to its end. -/
def jsonEofOffset : Nat := 2 ^ 32 - 1

namespace EventFiles

def empty : EventFiles := ⟨fun _ => .empty, 0, none, [], none, []⟩

/-! ## Emitting -/

/-- What a queue stores of an event, if it stores it. -/
def recorded (files : EventFiles) : (queue : Queue) → queue.Payload → Option queue.Payload
  | .keyboard, (event : KeyboardEvent) => if event.keycode = 0 then none else some event
  | .mouse, (event : MouseEvent) =>
    if event.dx = 0 ∧ event.dy = 0 ∧ event.buttons = files.lastButtons then none else some event
  | .netStatus, (status : NetStatus) =>
    if files.lastStatus = some status then none else some status
  | .fileChange, (event : FileChange) =>
    if isEmptyText event.op then none
    else
      let path := if isEmptyText event.path then ['-'] else event.path
      some { event with op := copyEventText 12 event.op, path := copyEventText 256 path }
  | .blockChange, (event : BlockChange) =>
    some { event with op := copyEventText 12 event.op, name := copyEventText 16 event.name }
  | .capability, (event : CapabilityEvent) =>
    if isEmptyText event.action then none
    else
      let source := if isEmptyText event.source then ['-'] else event.source
      let caps := if isEmptyText event.caps then ['-'] else event.caps
      some { event with
        source := copyEventText 32 source
        action := copyEventText 32 event.action
        caps := copyEventText 128 caps }

/-- The last state of the mouse buttons and of the network, which the emit functions
compare with. -/
def remember (files : EventFiles) : (queue : Queue) → queue.Payload → EventFiles
  | .mouse, (event : MouseEvent) => { files with lastButtons := event.buttons }
  | .netStatus, (status : NetStatus) => { files with lastStatus := some status }
  | _, _ => files

/-- An event enters its queue. -/
def emit (files : EventFiles) (queue : Queue) (tick : Nat) (event : queue.Payload) : EventFiles :=
  match files.recorded queue event with
  | none => files
  | some stored =>
    let ring := (files.queues queue).push queue.capacity ⟨tick, stored⟩
    { files.remember queue event with queues := Function.update files.queues queue ring }

/-! ## Reading -/

/-- A handle opened on a node, at its beginning. -/
def «open» (files : EventFiles) (node : Node) : EventFiles :=
  { files with handles := files.handles ++ [⟨node, 0, 0⟩] }

/-- The text of a node from a cursor on, and the next cursor. -/
def formatNode (files : EventFiles) (handle : Handle) (tick : Nat) : List Char × Nat :=
  match handle.node with
  | .timer json => (appendText textSize [] (timerText json tick), handle.cursor)
  | .events queue json =>
    (queue.format json).run (files.queues queue) queue.capacity handle.cursor

/-- A JSON file that was read to its end. -/
def AtEof (handle : Handle) : Prop := handle.node.isJson ∧ handle.offset = jsonEofOffset

instance (handle : Handle) : Decidable (AtEof handle) := inferInstanceAs (Decidable (_ ∧ _))

/-- The buffer does not hold the text that the handle is reading. -/
def Formats (files : EventFiles) (handle : Handle) : Prop :=
  handle.offset = 0 ∨ files.text.length ≤ handle.offset ∨ files.textNode ≠ some handle.node

instance (files : EventFiles) (handle : Handle) : Decidable (files.Formats handle) :=
  inferInstanceAs (Decidable (_ ∨ _ ∨ _))

/-- The first half of `vfs_read_from_eventfs`. -/
def refill (files : EventFiles) (handle : Handle) (tick : Nat) : EventFiles × Handle :=
  if files.Formats handle then
    let (text, cursor) := files.formatNode handle tick
    ({ files with text := text, textNode := some handle.node },
      { handle with cursor := cursor, offset := 0 })
  else (files, handle)

/-- The second half: `vfs_read_from_generated_text`, and the mark at the end of a JSON
text. Returns the bytes read. -/
def copyOut (files : EventFiles) (handle : Handle) (size : Nat) : Handle × List Char :=
  if files.text.isEmpty then (handle, [])
  else
    let copied := (files.text.drop handle.offset).take size
    let offset := handle.offset + copied.length
    if handle.node.isJson ∧ 0 < copied.length ∧ files.text.length ≤ offset then
      ({ handle with offset := jsonEofOffset }, copied)
    else ({ handle with offset := offset }, copied)

/-- What is copied is gone from what is left. -/
lemma copyOut_spec (files : EventFiles) (handle : Handle) (size : Nat)
    (htext : files.text.length < textSize) :
    (files.copyOut handle size).1.node = handle.node ∧
      (files.copyOut handle size).1.cursor = handle.cursor ∧
      (files.copyOut handle size).2 ++ files.text.drop (files.copyOut handle size).1.offset =
        files.text.drop handle.offset := by
  have heof : textSize ≤ jsonEofOffset := by decide
  have hlen : ((files.text.drop handle.offset).take size).length =
      min size (files.text.length - handle.offset) := by
    rw [length_take, length_drop]
  have hsplit := take_append_drop size (files.text.drop handle.offset)
  unfold copyOut
  split
  · exact ⟨rfl, rfl, rfl⟩
  dsimp only
  rw [hlen]
  split
  next hend =>
    refine ⟨rfl, rfl, ?_⟩
    have hrest : files.text.drop jsonEofOffset = [] := drop_eq_nil_of_le (by omega)
    rw [hrest, append_nil, take_of_length_le]
    rw [length_drop]
    omega
  · refine ⟨rfl, rfl, ?_⟩
    rw [← drop_drop]
    nth_rewrite 3 [← hsplit]
    congr 1
    by_cases hle : size ≤ files.text.length - handle.offset
    · rw [Nat.min_eq_left hle]
    rw [Nat.min_eq_right (Nat.le_of_not_le hle), drop_eq_nil_of_le, drop_eq_nil_of_le]
    · rw [length_drop]
      omega
    · rw [length_drop]

/-- A read from the text buffer, which is refilled first if it must be. -/
def readFromEventfs (files : EventFiles) (handle : Handle) (size tick : Nat) :
    EventFiles × Handle × List Char :=
  if AtEof handle then (files, handle, [])
  else
    let (files, handle) := files.refill handle tick
    let (handle, copied) := files.copyOut handle size
    (files, handle, copied)

/-- `vfs_read` on an open event file. -/
def read (files : EventFiles) (index size tick : Nat) : EventFiles × List Char :=
  match files.handles[index]? with
  | none => (files, [])
  | some handle =>
    if size = 0 then (files, [])
    else
      let (files, handle, copied) := files.readFromEventfs handle size tick
      ({ files with handles := files.handles.set index handle }, copied)

end EventFiles

/-! ## Calls and what was observed -/

/-- What happens to the event files. -/
inductive Call where
  | emit (queue : Queue) (tick : Nat) (event : queue.Payload)
  | «open» (node : Node)
  | read (index size tick : Nat)

/-- What is known of a reader: the bytes that it was given, the number of events before
those that it is to be given, set by its first read, and the events that were overwritten
in the queue before it read them. -/
structure Reader where
  seen : List Char
  since : Option Nat
  lost : List Nat

/-- The event files, all events ever recorded, and what the readers have seen. The owner
is the handle that the text in the buffer was made for. -/
structure Watch where
  files : EventFiles
  log : (queue : Queue) → List (Timed queue.Payload)
  owner : Option Nat
  readers : Nat → Reader

namespace Watch

def start : Watch := ⟨.empty, fun _ => [], none, fun _ => ⟨[], none, []⟩⟩

/-- The events before those that a reader is to be given from now on. The capability
nodes give all that are queued. -/
def firstSince (w : Watch) : Node → Nat
  | .timer _ => 0
  | .events queue json =>
    if (queue.format json).start = .oldest then 0 else (w.log queue).length

/-- The events behind the cursor of a handle that are no longer in the queue. -/
def overwritten (w : Watch) (handle : Handle) : List Nat :=
  match handle.node with
  | .timer _ => []
  | .events queue json =>
    let cursor := (queue.format json).startCursor (w.files.queues queue) handle.cursor
    List.range' cursor ((w.log queue).length - queue.capacity - cursor)

/-- What a reader has seen after a read that returned `copied`. -/
def observe (w : Watch) (index : Nat) (handle : Handle) (copied : List Char) : Reader :=
  let reader := w.readers index
  { seen := reader.seen ++ copied
    since := reader.since.getD (w.firstSince handle.node)
    lost := if w.files.Formats handle then reader.lost ++ w.overwritten handle else reader.lost }

/-- A step, and what the readers saw in it. -/
def perform (w : Watch) : Call → Watch
  | .emit queue tick event =>
    { w with
      files := w.files.emit queue tick event
      log := match w.files.recorded queue event with
        | none => w.log
        | some stored => Function.update w.log queue (w.log queue ++ [⟨tick, stored⟩]) }
  | .open node => { w with files := w.files.open node }
  | .read index size tick =>
    match w.files.handles[index]? with
    | none => w
    | some handle =>
      if size = 0 ∨ EventFiles.AtEof handle then w
      else
        let (files, copied) := w.files.read index size tick
        { w with
          files := files
          owner := if w.files.Formats handle then some index else w.owner
          readers := Function.update w.readers index (w.observe index handle copied) }

/-- The text of the buffer that the reader has not yet taken. -/
def rest (w : Watch) (index : Nat) : List Char :=
  match w.files.handles[index]? with
  | none => []
  | some handle => if w.owner = some index then w.files.text.drop handle.offset else []

end Watch

end NexOS.Event
