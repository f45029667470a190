import NexOS.Lib.RingLog
import NexOS.Event.Text

/-! # Formats of event files

Every queue of events has two nodes below `/event`: one with a line of text for each
event, and one with a JSON array. Their format functions differ in the texts, in the
room that they want for a record, and in what the first read does.
-/

namespace NexOS.Event

open List

/-! ## Events -/

/-- The queues of eventfs. -/
inductive Queue where
  | keyboard
  | mouse
  | netStatus
  | fileChange
  | blockChange
  | capability
  deriving DecidableEq

/-- `struct keyboard_event`; the character is its code. -/
structure KeyboardEvent where
  keycode : Nat
  ascii : Nat
  pressed : Bool
  released : Bool
  shift : Bool
  ctrl : Bool
  capsLock : Bool
  deriving DecidableEq

/-- A movement of the mouse. -/
structure MouseEvent where
  dx : Int
  dy : Int
  buttons : Nat
  deriving DecidableEq

/-- The state of the network card. -/
structure NetStatus where
  present : Bool
  initialized : Bool
  linkUp : Bool
  speedMbps : Nat
  deriving DecidableEq

/-- A change of a file. -/
structure FileChange where
  op : List Char
  path : List Char
  bytes : Nat
  nativeId : Nat
  deriving DecidableEq

/-- A change of the block devices. -/
structure BlockChange where
  op : List Char
  disk : Nat
  part : Nat
  name : List Char
  deriving DecidableEq

/-- A decision about a capability. -/
structure CapabilityEvent where
  source : List Char
  action : List Char
  caps : List Char
  required : Nat
  allowed : Nat
  missing : Nat
  decision : Nat
  reason : Nat
  deriving DecidableEq

namespace Queue

/-- What a queue records. -/
def Payload : Queue → Type
  | keyboard => KeyboardEvent
  | mouse => MouseEvent
  | netStatus => NetStatus
  | fileChange => FileChange
  | blockChange => BlockChange
  | capability => CapabilityEvent

/-- How many events a queue keeps. -/
def capacity : Queue → Nat
  | keyboard => 64
  | mouse => 64
  | netStatus => 16
  | fileChange => 64
  | blockChange => 32
  | capability => 64

lemma capacity_pos (queue : Queue) : 0 < queue.capacity := by
  cases queue <;> decide

end Queue

/-- An event and the tick that it was recorded at. -/
structure Timed (ε : Type) where
  tick : Nat
  event : ε

/-! ## Format functions -/

/-- `VFS_EVENT_TEXT_BUFFER_SIZE`. -/
def textSize : Nat := 2048

/-- What a format function does with a cursor that is not set. -/
inductive Start where
  /-- set it to the last event and return no text -/
  | silent
  /-- set it to the last event and go on -/
  | skip
  /-- leave it, so that all events that are queued follow -/
  | oldest
  deriving DecidableEq

/-- The counters of a queue. -/
structure Counters where
  pending : Nat
  dropped : Nat
  latest : Nat

/-- One format function. `closing` is given the number of records and the cursor
behind them. -/
structure Format (ε : Type) where
  reserve : Nat
  start : Start
  opening : List Char
  separator : List Char
  record : Stamped (Timed ε) → List Piece
  closing : Counters → Nat → Nat → List Char

namespace Format

variable {ε : Type} (format : Format ε) (ring : RingLog (Timed ε)) (capacity : Nat)

/-- The loop over the events behind the cursor. It takes no more events than the queue
holds. Returns the text, the cursor and the number of records. -/
def collect : Nat → List Char → Nat → Nat → List Char × Nat × Nat
  | 0, text, cursor, emitted => (text, cursor, emitted)
  | fuel + 1, text, cursor, emitted =>
    if text.length + format.reserve < textSize then
      match ring.getAfter capacity cursor with
      | none => (text, cursor, emitted)
      | some entry =>
        let text := if emitted = 0 then text else appendText textSize text format.separator
        collect fuel (appendAll textSize text (format.record entry)) entry.seq (emitted + 1)
    else (text, cursor, emitted)

/-- The cursor that the loop starts with. Zero means that it is not set. -/
def startCursor (cursor : Nat) : Nat :=
  if format.start ≠ .oldest ∧ cursor = 0 then ring.seq else cursor

/-- The text of a queue from a cursor on, with the cursor behind it. -/
def run (cursor : Nat) : List Char × Nat :=
  if format.start = .silent ∧ cursor = 0 then ([], ring.seq)
  else
    let (text, cursor, emitted) := format.collect ring capacity ring.count
      (appendText textSize [] format.opening) (format.startCursor ring cursor) 0
    (appendText textSize text
      (format.closing ⟨ring.count, ring.dropped, ring.seq⟩ emitted cursor), cursor)

end Format

/-! ## Texts -/

def jsonClosing (_ : Counters) (_ _ : Nat) : List Char := "]\n".toList

/-- The lines on pending and dropped events. -/
def pendingText (counters : Counters) : List Char :=
  "pending ".toList ++ u32Text counters.pending ++ "\ndropped ".toList ++
    u32Text counters.dropped ++ "\n".toList

def KeyboardEvent.state (event : KeyboardEvent) : List Char :=
  if event.pressed then "press".toList else if event.released then "release".toList
  else "state".toList

def keyboardEvents : Format KeyboardEvent where
  reserve := 96
  start := .skip
  opening := []
  separator := []
  record entry := [.text "event input.keyboard seq=".toList, .text (u32Text entry.seq),
    .text " tick=".toList, .text (u32Text entry.value.tick),
    .text " state=".toList, .text entry.value.event.state,
    .text " key=".toList, .text (keyboardAsciiText entry.value.event.ascii),
    .text " code=".toList, .text (u32Text entry.value.event.keycode),
    .text " shift=".toList, .text (boolText entry.value.event.shift),
    .text " ctrl=".toList, .text (boolText entry.value.event.ctrl),
    .text " caps=".toList, .text (boolText entry.value.event.capsLock),
    .text "\n".toList]
  closing counters emitted cursor :=
    if emitted = 0 then
      "type input.keyboard\n".toList ++ "status empty\npending ".toList ++
        u32Text counters.pending ++ "\ndropped ".toList ++ u32Text counters.dropped ++
        "\nlatest_seq ".toList ++ u32Text counters.latest ++ "\ncursor ".toList ++
        u32Text cursor ++ "\nsource /event/input/keyboard\n".toList
    else pendingText counters

def keyboardEventsJson : Format KeyboardEvent where
  reserve := 128
  start := .skip
  opening := ['[']
  separator := [',']
  record entry := [
    .text "\x7b\"type\":\"input.keyboard\",\"seq\":".toList, .text (u32Text entry.seq),
    .text ",\"tick\":".toList, .text (u32Text entry.value.tick),
    .text ",\"state\":".toList, .json entry.value.event.state,
    .text ",\"key\":".toList, .json (keyboardAsciiText entry.value.event.ascii),
    .text "\x7d".toList]
  closing := jsonClosing

def mouseEvents : Format MouseEvent where
  reserve := 96
  start := .skip
  opening := []
  separator := []
  record entry := [.text "event input.mouse seq=".toList, .text (u32Text entry.seq),
    .text " tick=".toList, .text (u32Text entry.value.tick),
    .text " dx=".toList, .text (i32Text entry.value.event.dx),
    .text " dy=".toList, .text (i32Text entry.value.event.dy),
    .text " buttons=".toList, .text (u32Text entry.value.event.buttons),
    .text "\n".toList]
  closing counters emitted cursor :=
    if emitted = 0 then
      "type input.mouse\nstatus empty\npending ".toList ++ u32Text counters.pending ++
        "\ndropped ".toList ++ u32Text counters.dropped ++ "\nlatest_seq ".toList ++
        u32Text counters.latest ++ "\ncursor ".toList ++ u32Text cursor ++
        "\nsource /event/input/mouse\n".toList
    else []

def mouseEventsJson : Format MouseEvent where
  reserve := 128
  start := .skip
  opening := ['[']
  separator := [',']
  record entry := [.text "\x7b\"type\":\"input.mouse\",\"seq\":".toList, .text (u32Text entry.seq),
    .text ",\"tick\":".toList, .text (u32Text entry.value.tick),
    .text ",\"dx\":".toList, .text (i32Text entry.value.event.dx),
    .text ",\"dy\":".toList, .text (i32Text entry.value.event.dy),
    .text ",\"buttons\":".toList, .text (u32Text entry.value.event.buttons),
    .text "\x7d".toList]
  closing := jsonClosing

def NetStatus.state (status : NetStatus) : List Char :=
  if status.linkUp then "up".toList else "down".toList

def netStatusEvent : Format NetStatus where
  reserve := 96
  start := .silent
  opening := []
  separator := []
  record entry := [.text "event net.status seq=".toList, .text (u32Text entry.seq),
    .text " tick=".toList, .text (u32Text entry.value.tick),
    .text " dev=rtl8139 present=".toList, .text (boolText entry.value.event.present),
    .text " initialized=".toList, .text (boolText entry.value.event.initialized),
    .text " state=".toList, .text entry.value.event.state,
    .text " speed=".toList, .text (u32Text entry.value.event.speedMbps),
    .text "\n".toList]
  closing counters emitted _ :=
    if emitted = 0 then
      "type net.status\nstatus empty\npending ".toList ++ u32Text counters.pending ++
        "\ndropped ".toList ++ u32Text counters.dropped ++ "\nsource /event/net/status\n".toList
    else pendingText counters

def netStatusEventJson : Format NetStatus where
  reserve := 128
  start := .skip
  opening := ['[']
  separator := [',']
  record entry := [.text "\x7b\"type\":\"net.status\",\"seq\":".toList, .text (u32Text entry.seq),
    .text ",\"tick\":".toList, .text (u32Text entry.value.tick),
    .text ",\"dev\":\"rtl8139\",\"state\":".toList, .json entry.value.event.state,
    .text ",\"speed\":".toList, .text (u32Text entry.value.event.speedMbps),
    .text "\x7d".toList]
  closing := jsonClosing

def fileEvents : Format FileChange where
  reserve := 120
  start := .silent
  opening := []
  separator := []
  record entry := [.text "event file.change seq=".toList, .text (u32Text entry.seq),
    .text " tick=".toList, .text (u32Text entry.value.tick),
    .text " op=".toList, .text entry.value.event.op,
    .text " path=".toList, .text entry.value.event.path,
    .text " bytes=".toList, .text (u32Text entry.value.event.bytes),
    .text " id=".toList, .text (u32Text entry.value.event.nativeId),
    .text "\n".toList]
  closing counters emitted _ :=
    if emitted = 0 then
      "type file.change\nstatus empty\npending ".toList ++ u32Text counters.pending ++
        "\ndropped ".toList ++ u32Text counters.dropped ++ "\nsource /event/file/change\n".toList
    else pendingText counters

def fileEventsJson : Format FileChange where
  reserve := 160
  start := .skip
  opening := ['[']
  separator := [',']
  record entry := [.text "\x7b\"type\":\"file.change\",\"seq\":".toList, .text (u32Text entry.seq),
    .text ",\"tick\":".toList, .text (u32Text entry.value.tick),
    .text ",\"op\":".toList, .json entry.value.event.op,
    .text ",\"path\":".toList, .json entry.value.event.path,
    .text ",\"bytes\":".toList, .text (u32Text entry.value.event.bytes),
    .text "\x7d".toList]
  closing := jsonClosing

def blockEvents : Format BlockChange where
  reserve := 120
  start := .silent
  opening := []
  separator := []
  record entry := [.text "event block.change seq=".toList, .text (u32Text entry.seq),
    .text " tick=".toList, .text (u32Text entry.value.tick),
    .text " op=".toList, .text entry.value.event.op,
    .text " disk=".toList, .text (u32Text entry.value.event.disk),
    .text " part=".toList,
    .text (if entry.value.event.part = 0xffffffff then "none".toList
      else u32Text entry.value.event.part),
    .text " name=".toList, .text entry.value.event.name,
    .text "\n".toList]
  closing counters emitted _ :=
    if emitted = 0 then
      "type block.change\nstatus empty\npending ".toList ++ u32Text counters.pending ++
        "\ndropped ".toList ++ u32Text counters.dropped ++ "\nsource /event/block/change\n".toList
    else []

/-- The records of this node have no tick. -/
def blockEventsJson : Format BlockChange where
  reserve := 160
  start := .skip
  opening := ['[']
  separator := [',']
  record entry := [.text "\x7b\"type\":\"block.change\",\"seq\":".toList, .text (u32Text entry.seq),
    .text ",\"op\":".toList, .json entry.value.event.op,
    .text ",\"disk\":".toList, .text (u32Text entry.value.event.disk),
    .text ",\"name\":".toList, .json entry.value.event.name,
    .text "\x7d".toList]
  closing := jsonClosing

def capabilityDecisionName (decision : Nat) : List Char :=
  if decision = 1 then "allow".toList else if decision = 2 then "deny".toList
  else "unknown".toList

def capabilityReasonName (reason : Nat) : List Char :=
  if reason = 2 then "allow-action".toList
  else if reason = 3 then "deny-action".toList
  else if reason = 1 then "mask".toList
  else if reason = 4 then "exec-policy".toList
  else "unknown".toList

def capabilityEvents : Format CapabilityEvent where
  reserve := 180
  start := .oldest
  opening := []
  separator := []
  record entry := [.text "event security.capability seq=".toList, .text (u32Text entry.seq),
    .text " tick=".toList, .text (u32Text entry.value.tick),
    .text " decision=".toList, .text (capabilityDecisionName entry.value.event.decision),
    .text " reason=".toList, .text (capabilityReasonName entry.value.event.reason),
    .text " source=".toList, .text entry.value.event.source,
    .text " action=".toList, .text entry.value.event.action,
    .text " required=".toList, .text (hexText entry.value.event.required),
    .text " allowed=".toList, .text (hexText entry.value.event.allowed),
    .text " missing=".toList, .text (hexText entry.value.event.missing),
    .text " caps=".toList, .text entry.value.event.caps,
    .text "\n".toList]
  closing counters emitted _ :=
    if emitted = 0 then
      "type security.capability\nstatus empty\npending ".toList ++ u32Text counters.pending ++
        "\ndropped ".toList ++ u32Text counters.dropped ++
        "\nsource /event/security/capability\n".toList
    else pendingText counters

def capabilityEventsJson : Format CapabilityEvent where
  reserve := 220
  start := .oldest
  opening := ['[']
  separator := [',']
  record entry := [
    .text "\x7b\"type\":\"security.capability\",\"seq\":".toList, .text (u32Text entry.seq),
    .text ",\"tick\":".toList, .text (u32Text entry.value.tick),
    .text ",\"decision\":".toList, .json (capabilityDecisionName entry.value.event.decision),
    .text ",\"reason\":".toList, .json (capabilityReasonName entry.value.event.reason),
    .text ",\"source\":".toList, .json entry.value.event.source,
    .text ",\"action\":".toList, .json entry.value.event.action,
    .text ",\"required\":".toList, .text (u32Text entry.value.event.required),
    .text ",\"allowed\":".toList, .text (u32Text entry.value.event.allowed),
    .text ",\"missing\":".toList, .text (u32Text entry.value.event.missing),
    .text ",\"caps\":".toList, .json entry.value.event.caps,
    .text "\x7d".toList]
  closing := jsonClosing

/-- `vfs_format_eventfs`, for the nodes of a queue. -/
def Queue.format : (queue : Queue) → Bool → Format queue.Payload
  | .keyboard, false => keyboardEvents
  | .keyboard, true => keyboardEventsJson
  | .mouse, false => mouseEvents
  | .mouse, true => mouseEventsJson
  | .netStatus, false => netStatusEvent
  | .netStatus, true => netStatusEventJson
  | .fileChange, false => fileEvents
  | .fileChange, true => fileEventsJson
  | .blockChange, false => blockEvents
  | .blockChange, true => blockEventsJson
  | .capability, false => capabilityEvents
  | .capability, true => capabilityEventsJson

/-- The nodes of the timer have no events; their text is the current tick. -/
def timerText (json : Bool) (tick : Nat) : List Char :=
  if json then "[\x7b\"type\":\"timer.tick\",\"tick\":".toList ++ u32Text tick ++ "\x7d]\n".toList
  else "event timer.tick tick=".toList ++ u32Text tick ++ "\n".toList

lemma length_timerText_lt (json : Bool) (tick : Nat) : (timerText json tick).length < textSize := by
  have hle := length_u32Text_le tick
  have hsize : textSize = 2048 := rfl
  cases json with
  | false =>
    simp only [timerText, Bool.false_eq_true, if_false, length_append]
    have hopen : "event timer.tick tick=".toList.length = 22 := by decide
    have hclose : "\n".toList.length = 1 := by decide
    omega
  | true =>
    simp only [timerText, if_true, length_append]
    have hopen : "[\x7b\"type\":\"timer.tick\",\"tick\":".toList.length = 29 := by decide
    have hclose : "\x7d]\n".toList.length = 3 := by decide
    omega

/-! ## What a format function returns -/

/-- The texts with a separator between them. -/
def joined (separator : List Char) : List (List Char) → List Char
  | [] => []
  | text :: rest => text ++ rest.flatMap (separator ++ ·)

lemma joined_concat {separator : List Char} {texts : List (List Char)} (text : List Char) :
    joined separator (texts ++ [text]) =
      joined separator texts ++ (if texts = [] then [] else separator) ++ text := by
  cases texts with
  | nil => simp [joined]
  | cons first rest => simp [joined]

namespace Format

variable {ε : Type} {format : Format ε} {ring : RingLog (Timed ε)} {capacity : Nat}
  {log : List (Timed ε)} {first last : Nat}

/-- The text of one record. -/
def recordText (format : Format ε) (entry : Stamped (Timed ε)) : List Char :=
  renderAll (format.record entry)

/-- The events from one position of the log to another, with their numbers. -/
def entries (log : List (Timed ε)) (first last : Nat) : List (Stamped (Timed ε)) :=
  (List.range' first (last - first)).filterMap fun i => (log[i]?).map (Stamped.mk (i + 1))

/-- The text of a batch, without its last lines. -/
def body (format : Format ε) (records : List (Stamped (Timed ε))) : List Char :=
  format.opening ++ joined format.separator (records.map format.recordText)

/-- The records from a place of the log on are not longer than the room that is kept for
one, together with the separator. -/
def Fits (format : Format ε) (log : List (Timed ε)) (first : Nat) : Prop :=
  ∀ entry ∈ entries log first log.length,
    format.separator.length + (format.recordText entry).length ≤ format.reserve

instance (log : List (Timed ε)) (first : Nat) : Decidable (format.Fits log first) :=
  inferInstanceAs (Decidable (∀ entry ∈ _, _))

lemma mem_entries {i : Nat} (hfirst : first ≤ i) (hlast : i < last)
    (hi : i < log.length) : ⟨i + 1, log[i]⟩ ∈ entries log first last := by
  refine mem_filterMap.mpr ⟨i, mem_range'_1.mpr (by omega), ?_⟩
  rw [getElem?_eq_getElem hi]
  rfl

lemma entries_succ (hle : first ≤ last) (hlast : last < log.length) :
    entries log first (last + 1) = entries log first last ++ [⟨last + 1, log[last]⟩] := by
  unfold entries
  rw [show last + 1 - first = last - first + 1 by omega, range'_1_concat, Nat.add_sub_cancel' hle]
  simp [hlast]

lemma length_entries (hlast : last ≤ log.length) :
    (entries log first last).length = last - first := by
  unfold entries
  rw [length_filterMap_eq_countP, countP_eq_length.mpr, length_range']
  intro i hi
  rw [mem_range'_1] at hi
  simp
  omega

lemma body_succ (hle : first ≤ last) (hlast : last < log.length) :
    format.body (entries log first (last + 1)) = format.body (entries log first last) ++
      (if last - first = 0 then [] else format.separator) ++
        format.recordText ⟨last + 1, log[last]⟩ := by
  have hempty : (entries log first last).map format.recordText = [] ↔ last - first = 0 := by
    rw [map_eq_nil_iff, ← length_eq_zero_iff, length_entries hlast.le]
  unfold body
  rw [entries_succ hle hlast, map_append, map_singleton, joined_concat]
  simp only [hempty, append_assoc]

/-- The loop appends whole records until the log or the room for one more ends. -/
lemma collect_spec (hkeeps : ring.Keeps capacity log) (hfits : format.Fits log first)
    {fuel cur : Nat} (hnext : RingLog.next capacity log cur = last)
    (hfirst : first ≤ last) (hlast : last ≤ log.length) (hfuel : log.length ≤ last + fuel)
    (htext : (format.body (entries log first last)).length < textSize) :
    ∃ last', last ≤ last' ∧ last' ≤ log.length ∧
      format.collect ring capacity fuel (format.body (entries log first last)) cur (last - first) =
        (format.body (entries log first last'), if last' = last then cur else last',
          last' - first) ∧
      (format.body (entries log first last')).length < textSize ∧
      (last' = log.length ∨
        textSize ≤ (format.body (entries log first last')).length + format.reserve) := by
  induction fuel generalizing last cur with
  | zero =>
    refine ⟨last, le_rfl, hlast, ?_, htext, .inl (Nat.le_antisymm hlast hfuel)⟩
    rw [collect, if_pos rfl]
  | succ fuel ih =>
    unfold collect
    split
    · rw [hkeeps.getAfter, hnext]
      obtain rfl | hmore := Nat.eq_or_lt_of_le hlast
      · rw [getElem?_eq_none le_rfl]
        refine ⟨log.length, le_rfl, le_rfl, ?_, htext, .inl rfl⟩
        rw [if_pos rfl]
        rfl
      rw [getElem?_eq_getElem hmore]
      have hrecord := hfits _ (mem_entries hfirst hmore hmore)
      have hbody := @body_succ _ format log first last hfirst hmore
      have hseparated : (if last - first = 0 then format.body (entries log first last)
          else appendText textSize (format.body (entries log first last)) format.separator) =
          format.body (entries log first last) ++
            (if last - first = 0 then [] else format.separator) := by
        split
        · rw [append_nil]
        · exact appendText_eq (by omega)
      have hlen : (format.body (entries log first last) ++
          (if last - first = 0 then [] else format.separator)).length +
            (format.recordText ⟨last + 1, log[last]⟩).length < textSize := by
        rw [length_append]
        split
        · rw [length_nil]
          omega
        · omega
      have hwhole : appendAll textSize (format.body (entries log first last) ++
          (if last - first = 0 then [] else format.separator))
            (format.record ⟨last + 1, log[last]⟩) =
          format.body (entries log first (last + 1)) :=
        (appendAll_eq hlen).trans hbody.symm
      have hnext' : RingLog.next capacity log (last + 1) = last + 1 := by
        unfold RingLog.next at hnext ⊢
        omega
      have htext' : (format.body (entries log first (last + 1))).length < textSize := by
        rwa [hbody, length_append]
      obtain ⟨last', hle, hlog, hcollect, hshort, hend⟩ :=
        ih hnext' (by omega) hmore (by omega) htext'
      refine ⟨last', by omega, hlog, ?_, hshort, hend⟩
      simp only [Option.map_some, hseparated, hwhole]
      have hcur : (if last' = last + 1 then last + 1 else last') = last' := by
        split
        next hsame => exact hsame.symm
        · rfl
      rw [show last - first + 1 = last + 1 - first by omega, hcollect, hcur,
        if_neg (show ¬last' = last by omega)]
    next hroom =>
      refine ⟨last, le_rfl, hlast, ?_, htext, .inr (Nat.le_of_not_lt hroom)⟩
      rw [if_pos rfl]

/-- The buffer has room for the opening and a record. -/
lemma opening_lt (queue : Queue) (json : Bool) :
    (queue.format json).opening.length + (queue.format json).reserve < textSize := by
  cases queue <;> cases json <;> decide

/-- A format function whose cursor is set returns whole records, and moves the cursor
behind them. -/
lemma run_spec (hkeeps : ring.Keeps capacity log) (hpos : 0 < capacity) {cur : Nat}
    (hset : ¬(format.start = .silent ∧ cur = 0))
    (hfirst : RingLog.next capacity log (format.startCursor ring cur) = first)
    (hcur : format.startCursor ring cur ≤ log.length) (hfits : format.Fits log first)
    (hopening : format.opening.length + format.reserve < textSize) :
    ∃ last tail, first ≤ last ∧ last ≤ log.length ∧ (first < log.length → first < last) ∧
      format.run ring capacity cur = (format.body (entries log first last) ++ tail, last) ∧
      (format.body (entries log first last) ++ tail).length < textSize ∧
      ∃ counters emitted cur, tail <+: format.closing counters emitted cur := by
  have hnone : entries log first first = [] := by
    rw [entries, Nat.sub_self]
    rfl
  have hstart : format.body (entries log first first) = appendText textSize [] format.opening := by
    rw [hnone, appendText_eq (by rw [length_nil]; omega)]
    exact append_nil _
  unfold RingLog.next at hfirst
  have hlast : first ≤ log.length := by omega
  have hfuel : log.length ≤ first + ring.count := by
    rw [hkeeps.count]
    omega
  have hshort : (format.body (entries log first first)).length < textSize := by
    rw [hstart]
    exact length_appendText_lt (by decide)
  obtain ⟨last, hle, hlog, hcollect, hlen, hend⟩ :=
    collect_spec hkeeps hfits hfirst le_rfl hlast hfuel hshort
  have hmore : first < log.length → first < last := by
    by_contra hnot
    obtain rfl : last = first := by omega
    rw [hnone, show format.body [] = format.opening from append_nil _] at hend
    omega
  -- without a record, the cursor was at the end of the log
  have hmoved : (if last = first then format.startCursor ring cur else last) = last := by
    split
    · omega
    · rfl
  rw [hmoved] at hcollect
  obtain ⟨tail, htail, happ⟩ := @exists_appendText _ _ (format.closing
    ⟨ring.count, ring.dropped, ring.seq⟩ (last - first) last) hlen
  refine ⟨last, tail, hle, hlog, hmore, ?_, ?_, _, _, _, htail⟩
  · rw [hstart, Nat.sub_self] at hcollect
    unfold run
    rw [if_neg hset, hcollect]
    dsimp only
    rw [happ]
  · rw [← happ]
    exact length_appendText_lt (by decide)

end Format

end NexOS.Event
