import NexOS.Event.EventFiles
import NexOS.Lib.GuardedRuns

/-! # Delivery of events

Every reader of an event file is given, for each event that is recorded after its first
read and not overwritten before it is read, one whole record, in the order of the
numbers. This holds in every run in which no reader uses the shared text of another, no
cursor is zero when events have been recorded since the first read, no record is longer
than the room that is kept for one, no JSON file is read again after its end while events
are waiting, and no sequence number wraps.
-/

namespace NexOS.Event

open Function List Nat Option GuardedRuns

/-! ## What a reader is due -/

section Due

variable {ε : Type} {format : Format ε} {log : List (Timed ε)} {records : List (Stamped (Timed ε))}

/-- The records from `since` up to the cursor that were not lost. -/
def due (log : List (Timed ε)) (since cursor : Nat) (lost : List Nat) : List (Stamped (Timed ε)) :=
  ((List.range' since (cursor - since)).filter (· ∉ lost)).filterMap fun i =>
    (log[i]?).map (Stamped.mk (i + 1))

/-- One text that was made for a reader: whole records, and what stands behind them. -/
structure Batch (ε : Type) where
  records : List (Stamped (Timed ε))
  tail : List Char

/-- The text that one refill of the buffer produces. -/
def Batch.text (batch : Batch ε) (format : Format ε) : List Char :=
  format.body batch.records ++ batch.tail

/-- The text consists of whole batches, which have the records that are due. -/
def Carries (format : Format ε) (records : List (Stamped (Timed ε))) (text : List Char) : Prop :=
  ∃ batches : List (Batch ε), (∀ batch ∈ batches, ∃ counters emitted cursor,
      batch.tail <+: format.closing counters emitted cursor) ∧
    batches.flatMap (Batch.text · format) = text ∧ batches.flatMap Batch.records = records

lemma due_self (log : List (Timed ε)) (since : Nat) (lost : List Nat) :
    due log since since lost = [] := by
  rw [due, Nat.sub_self]
  rfl

/-- Later events do not matter. -/
lemma due_append {since cur : Nat} {lost : List Nat} (hcur : cur ≤ log.length)
    (later : List (Timed ε)) : due (log ++ later) since cur lost = due log since cur lost := by
  refine filterMap_congr fun i hi => ?_
  have hrange := mem_range'_1.mp (mem_filter.mp hi).1
  rw [getElem?_append_left (by omega)]

/-- The cursor passes over the events that were overwritten and moves behind those that
are taken. -/
lemma due_advance {since cur first last : Nat} {lost : List Nat} (hsince : since ≤ cur)
    (hlost : ∀ i ∈ lost, i < cur) (hfirst : cur ≤ first) (hlast : first ≤ last) :
    due log since last (lost ++ List.range' cur (first - cur)) =
      due log since cur lost ++ Format.entries log first last := by
  have hsplit : List.range' since (last - since) = List.range' since (cur - since) ++
      (List.range' cur (first - cur) ++ List.range' first (last - first)) := by
    have hinner := range'_append_1 (s := cur) (m := first - cur) (n := last - first)
    have houter := range'_append_1 (s := since) (m := cur - since) (n := last - cur)
    rw [Nat.add_sub_cancel' hfirst, show first - cur + (last - first) = last - cur by omega]
      at hinner
    rw [Nat.add_sub_cancel' hsince, show cur - since + (last - cur) = last - since by omega]
      at houter
    rw [hinner, houter]
  have hold : (List.range' since (cur - since)).filter
      (· ∉ lost ++ List.range' cur (first - cur)) =
      (List.range' since (cur - since)).filter (· ∉ lost) := by
    refine filter_congr fun i hi => ?_
    rw [mem_range'_1] at hi
    simp only [mem_append, mem_range'_1, decide_eq_decide]
    constructor
    · exact fun h hmem => h (.inl hmem)
    · rintro h (hmem | hmem)
      · exact h hmem
      · omega
  have hpass : (List.range' cur (first - cur)).filter
      (· ∉ lost ++ List.range' cur (first - cur)) = [] := by
    refine filter_eq_nil_iff.mpr fun i hi => ?_
    simp only [decide_eq_true_eq, not_not]
    exact mem_append_right _ hi
  have htaken : (List.range' first (last - first)).filter
      (· ∉ lost ++ List.range' cur (first - cur)) = List.range' first (last - first) := by
    refine filter_eq_self.mpr fun i hi => ?_
    rw [mem_range'_1] at hi
    simp only [decide_eq_true_eq, mem_append, mem_range'_1]
    rintro (hmem | hmem)
    · have hlt := hlost i hmem
      omega
    · omega
  unfold due Format.entries
  rw [hsplit, filter_append, filter_append, hold, hpass, htaken, nil_append, filterMap_append]

/-- One more batch. -/
lemma Carries.append {more : List (Stamped (Timed ε))} {text tail : List Char}
    (hcarries : Carries format records text)
    (htail : ∃ counters emitted cur, tail <+: format.closing counters emitted cur) :
    Carries format (records ++ more) (text ++ (format.body more ++ tail)) := by
  obtain ⟨batches, hclosing, rfl, rfl⟩ := hcarries
  refine ⟨batches ++ [⟨more, tail⟩], fun batch hbatch => ?_, ?_, ?_⟩
  · rcases mem_append.mp hbatch with hold | hnew
    · exact hclosing batch hold
    · rw [mem_singleton.mp hnew]
      exact htail
  · simp [Batch.text]
  · simp

lemma carries_nil (format : Format ε) : Carries format [] [] := ⟨[], nofun, rfl, rfl⟩

/-- Without a text there is no record. -/
lemma Carries.eq_nil
    (hcarries : Carries format records []) (hrecord : ∀ entry, format.recordText entry ≠ []) :
    records = [] := by
  obtain ⟨batches, -, htext, rfl⟩ := hcarries
  rw [flatMap_eq_nil_iff] at htext ⊢
  intro batch hbatch
  have hempty := htext batch hbatch
  unfold Batch.text Format.body at hempty
  rw [append_eq_nil_iff, append_eq_nil_iff] at hempty
  rcases hrecords : batch.records with _ | ⟨entry, rest⟩
  · rfl
  have hjoin := hempty.1.2
  rw [hrecords, map_cons, joined, append_eq_nil_iff] at hjoin
  exact absurd hjoin.1 (hrecord entry)

end Due

namespace Watch

/-! ## The law -/

/-- Everything that a reader was given and what is left of its text is made up of whole
batches of its node. They have the records that it is due. -/
def Delivered (w : Watch) (index : Nat) (handle : Handle) (since : Nat) : Prop :=
  match handle.node with
  | .timer json => ∃ ticks : List Nat,
      (w.readers index).seen ++ w.rest index = ticks.flatMap (timerText json)
  | .events queue json => Carries (queue.format json)
      (due (w.log queue) since handle.cursor (w.readers index).lost)
      ((w.readers index).seen ++ w.rest index)

/-! ## The condition -/

/-- No event of the queue is still to be read. -/
def CaughtUp (w : Watch) (handle : Handle) : Prop :=
  match handle.node with
  | .timer _ => True
  | .events queue _ => handle.cursor = (w.log queue).length

/-- The cursor of a reader that has read before is set, or there has been no event. -/
def CursorSet (w : Watch) (index : Nat) (handle : Handle) : Prop :=
  match handle.node with
  | .timer _ => True
  | .events queue json => (w.readers index).since ≠ none → handle.cursor = 0 →
      (queue.format json).start ≠ .oldest → (w.log queue).length = 0

/-- The records that wait for the reader fit into the room that is kept for them. -/
def RecordsFit (w : Watch) (handle : Handle) : Prop :=
  match handle.node with
  | .timer _ => True
  | .events queue json => (queue.format json).Fits (w.log queue)
      (RingLog.next queue.capacity (w.log queue)
        ((queue.format json).startCursor (w.files.queues queue) handle.cursor))

/-- A read that makes a new text does not take another reader's text from it, its cursor
is set, and the records fit. A read that goes on in the buffer finds its own text there.
A JSON file is not read again after its end while events wait. -/
def ReadFits (w : Watch) (index : Nat) (handle : Handle) : Prop :=
  if EventFiles.AtEof handle then w.CaughtUp handle
  else if w.files.Formats handle then
    (∀ owner ∈ w.owner, w.rest owner = []) ∧ w.CursorSet index handle ∧ w.RecordsFit handle
  else w.owner = some index

/-- A step within the counters, and a read that the buffer can serve. -/
def Fits (w : Watch) : Call → Prop
  | .emit queue _ _ => (w.log queue).length + 1 < 2 ^ 32
  | .open _ => True
  | .read index size _ => size = 0 ∨ ∀ handle ∈ w.files.handles[index]?, w.ReadFits index handle

instance (w : Watch) (handle : Handle) : Decidable (w.CaughtUp handle) :=
  match handle with
  | ⟨.timer _, _, _⟩ => isTrue trivial
  | ⟨.events queue _, cursor, _⟩ => inferInstanceAs (Decidable (cursor = (w.log queue).length))

instance (w : Watch) (index : Nat) (handle : Handle) : Decidable (w.CursorSet index handle) :=
  match handle with
  | ⟨.timer _, _, _⟩ => isTrue trivial
  | ⟨.events queue json, cursor, _⟩ => inferInstanceAs (Decidable ((w.readers index).since ≠ none →
      cursor = 0 → (queue.format json).start ≠ .oldest → (w.log queue).length = 0))

instance (w : Watch) (handle : Handle) : Decidable (w.RecordsFit handle) :=
  match handle with
  | ⟨.timer _, _, _⟩ => isTrue trivial
  | ⟨.events _ _, _, _⟩ => inferInstanceAs (Decidable (Format.Fits _ _ _))

instance (w : Watch) (index : Nat) (handle : Handle) : Decidable (w.ReadFits index handle) :=
  inferInstanceAs (Decidable (if EventFiles.AtEof handle then w.CaughtUp handle
    else if w.files.Formats handle then
      (∀ owner ∈ w.owner, w.rest owner = []) ∧ w.CursorSet index handle ∧ w.RecordsFit handle
    else w.owner = some index))

instance (w : Watch) (call : Call) : Decidable (w.Fits call) :=
  match call with
  | .emit _ _ _ => inferInstanceAs (Decidable (_ < _))
  | .open _ => isTrue trivial
  | .read _ _ _ => inferInstanceAs (Decidable (_ ∨ ∀ handle ∈ (_ : Option Handle), _))

/-! ## The invariant -/

/-- What holds of an open handle. -/
structure HandleSound (w : Watch) (index : Nat) (handle : Handle) : Prop where
  fresh : (w.readers index).since = none → w.readers index = ⟨[], none, []⟩ ∧
    handle.cursor = 0 ∧ w.owner ≠ some index
  cursor : ∀ queue json, handle.node = .events queue json → handle.cursor ≤ (w.log queue).length
  since : ∀ since ∈ (w.readers index).since, ∀ queue json, handle.node = .events queue json →
    since ≤ handle.cursor
  lost : ∀ i ∈ (w.readers index).lost, i < handle.cursor
  delivered : ∀ since ∈ (w.readers index).since, w.Delivered index handle since

/-- What holds between the event files and what the readers were given. -/
structure Sound (w : Watch) : Prop where
  rings : ∀ queue, (w.files.queues queue).Keeps queue.capacity (w.log queue)
  text : w.files.text.length < textSize
  owner : ∀ index ∈ w.owner, index < w.files.handles.length
  reader : ∀ index, w.files.handles.length ≤ index → w.readers index = ⟨[], none, []⟩
  handle : ∀ index handle, w.files.handles[index]? = some handle → w.HandleSound index handle

lemma sound_start : start.Sound where
  rings queue := RingLog.keeps_empty queue.capacity
  text := by decide
  owner := nofun
  reader _ _ := rfl
  handle _ _ := nofun

variable {w w' : Watch} {index : Nat} {handle : Handle} {tick size : Nat} {handle' : Handle}

/-- A handle that nothing happens to, while the logs grow. -/
lemma HandleSound.transfer (hsound : w.HandleSound index handle)
    (hreader : w'.readers index = w.readers index) (hrest : w'.rest index = w.rest index)
    (howner : w'.owner = some index → w.owner = some index)
    (hlog : ∀ queue, ∃ later, w'.log queue = w.log queue ++ later) :
    w'.HandleSound index handle where
  fresh hnone := by
    rw [hreader] at hnone ⊢
    obtain ⟨hfresh, hcur, hnot⟩ := hsound.fresh hnone
    exact ⟨hfresh, hcur, fun howns => hnot (howner howns)⟩
  cursor queue json hnode := by
    obtain ⟨later, hlater⟩ := hlog queue
    rw [hlater, length_append]
    exact (hsound.cursor queue json hnode).trans (le_add_right _ _)
  since := by
    rw [hreader]
    exact hsound.since
  lost := by
    rw [hreader]
    exact hsound.lost
  delivered since hsince := by
    rw [hreader] at hsince
    have hold := hsound.delivered since hsince
    unfold Delivered at hold ⊢
    rw [hreader, hrest]
    split at hold
    · exact hold
    next queue json hnode =>
      obtain ⟨later, hlater⟩ := hlog queue
      rw [hlater, due_append (hsound.cursor queue json hnode)]
      exact hold

/-! ## Emitting and opening -/

lemma Sound.emit (hsound : w.Sound) {queue : Queue} {event : queue.Payload}
    (hsmall : (w.log queue).length + 1 < 2 ^ 32) : (w.perform (.emit queue tick event)).Sound := by
  cases hrec : w.files.recorded queue event with
  | none =>
    have hsame : w.perform (.emit queue tick event) = w := by
      simp [perform, EventFiles.emit, hrec]
    rwa [hsame]
  | some stored =>
    have hlog : (w.perform (.emit queue tick event)).log =
        update w.log queue (w.log queue ++ [⟨tick, stored⟩]) := by
      simp [perform, hrec]
    have hqueues : (w.perform (.emit queue tick event)).files.queues = update
        w.files.queues queue ((w.files.queues queue).push queue.capacity ⟨tick, stored⟩) := by
      simp [perform, EventFiles.emit, hrec]
    have hhs : (w.perform (.emit queue tick event)).files.handles = w.files.handles := by
      simp only [perform, EventFiles.emit, hrec]
      cases queue <;> rfl
    have htext : (w.perform (.emit queue tick event)).files.text = w.files.text := by
      simp only [perform, EventFiles.emit, hrec]
      cases queue <;> rfl
    refine ⟨fun other => ?_, ?_, ?_, ?_, fun index handle hhandle => ?_⟩
    · rw [hlog, hqueues]
      by_cases hother : other = queue
      · subst hother
        rw [update_self, update_self]
        exact (hsound.rings other).push other.capacity_pos hsmall _
      · rw [update_of_ne hother, update_of_ne hother]
        exact hsound.rings other
    · rw [htext]
      exact hsound.text
    · rw [hhs]
      exact hsound.owner
    · rw [hhs]
      exact hsound.reader
    · rw [hhs] at hhandle
      refine (hsound.handle index handle hhandle).transfer rfl ?_ id ?_
      · unfold rest
        rw [hhs, htext]
        rfl
      intro other
      rw [hlog]
      by_cases hother : other = queue
      · subst hother
        exact ⟨_, update_self ..⟩
      · refine ⟨[], ?_⟩
        rw [append_nil]
        exact update_of_ne hother ..

lemma Sound.open (hsound : w.Sound) (node : Node) : (w.perform (.open node)).Sound := by
  have hhs : (w.perform (.open node)).files.handles = w.files.handles ++ [⟨node, 0, 0⟩] := rfl
  have hnew : (w.files.handles ++ [(⟨node, 0, 0⟩ : Handle)]).length = w.files.handles.length + 1 :=
    length_append
  refine ⟨hsound.rings, hsound.text, fun owner howner => ?_, fun other hother => ?_,
    fun other handle hhandle => ?_⟩
  · have hold := hsound.owner owner howner
    rw [hhs]
    omega
  · rw [hhs] at hother
    exact hsound.reader other (by omega)
  rw [hhs] at hhandle
  obtain hlt | rfl | hgt := Nat.lt_trichotomy other w.files.handles.length
  · rw [getElem?_append_left hlt] at hhandle
    refine (hsound.handle other handle hhandle).transfer rfl ?_ id
      fun queue => ⟨[], (append_nil _).symm⟩
    unfold rest
    rw [hhs, getElem?_append_left hlt]
    rfl
  · rw [getElem?_append_right le_rfl, Nat.sub_self] at hhandle
    cases hhandle
    have hreader : (w.perform (.open node)).readers w.files.handles.length = ⟨[], none, []⟩ :=
      hsound.reader _ le_rfl
    have hnot : w.owner ≠ some w.files.handles.length := fun howns =>
      lt_irrefl _ (hsound.owner _ howns)
    refine ⟨fun _ => ⟨hreader, rfl, hnot⟩, fun _ _ _ => zero_le _, ?_, ?_, ?_⟩
    · rw [hreader]
      nofun
    · rw [hreader]
      nofun
    · rw [hreader]
      nofun
  · rw [getElem?_eq_none (by rw [hnew]; omega)] at hhandle
    cases hhandle

/-! ## Reading -/

/-- The event from which a reader counts. -/
def sinceOf (w : Watch) (index : Nat) (handle : Handle) : Nat :=
  (w.readers index).since.getD (w.firstSince handle.node)

/-- A reader that has `left` to read from now on. -/
structure Ready (w : Watch) (index : Nat) (handle : Handle) (lost : List Nat) (left : List Char)
    (cursor : Nat) : Prop where
  bound : ∀ queue json, handle.node = .events queue json →
    w.sinceOf index handle ≤ cursor ∧ cursor ≤ (w.log queue).length
  passed : ∀ i ∈ lost, i < cursor
  delivered : match handle.node with
    | .timer json => ∃ ticks : List Nat,
        (w.readers index).seen ++ left = ticks.flatMap (timerText json)
    | .events queue json => Carries (queue.format json)
        (due (w.log queue) (w.sinceOf index handle) cursor lost) ((w.readers index).seen ++ left)

/-- A new text for a reader whose old one is used up. -/
structure Refilled (w : Watch) (index : Nat) (handle : Handle) (text : List Char) (cursor : Nat) :
    Prop extends w.Ready index handle ((w.readers index).lost ++ w.overwritten handle) text cursor
    where
  short : text.length < textSize
  takes : ∀ queue json, handle.node = .events queue json → (w.readers index).since ≠ none →
    handle.cursor < (w.log queue).length →
      RingLog.next queue.capacity (w.log queue) handle.cursor < cursor

/-- What holds of a reader at the cursor that its format function starts with. -/
lemma Sound.startCursor (hsound : w.Sound) (hhandle : w.files.handles[index]? = some handle)
    (hset : w.CursorSet index handle) (hrest : w.rest index = []) {queue : Queue} {json : Bool}
    (hnode : handle.node = .events queue json) {cur : Nat}
    (hcur : (queue.format json).startCursor (w.files.queues queue) handle.cursor = cur) :
    w.sinceOf index handle ≤ cur ∧ cur ≤ (w.log queue).length ∧
      (∀ i ∈ (w.readers index).lost, i < cur) ∧
      Carries (queue.format json) (due (w.log queue) (w.sinceOf index handle) cur
        (w.readers index).lost) (w.readers index).seen ∧
      ((w.readers index).since ≠ none → cur = handle.cursor) := by
  have hsoundHandle := hsound.handle index handle hhandle
  have hseq := (hsound.rings queue).seq
  have hbound := hsoundHandle.cursor queue json hnode
  subst hcur
  unfold Format.startCursor
  rw [hseq]
  cases hsince : (w.readers index).since with
  | none =>
    obtain ⟨hfresh, hzero, -⟩ := hsoundHandle.fresh hsince
    have hstart : w.sinceOf index handle =
        if (queue.format json).start ≠ .oldest ∧ handle.cursor = 0 then (w.log queue).length
        else handle.cursor := by
      unfold sinceOf firstSince
      rw [hsince, hnode, hzero, getD_none]
      dsimp only
      split
      next holdest =>
        rw [if_neg (fun h => h.1 holdest)]
      next holdest =>
        rw [if_pos ⟨holdest, rfl⟩]
    rw [← hstart, hfresh]
    refine ⟨le_rfl, ?_, nofun, ?_, fun h => absurd rfl h⟩
    · rw [hstart]
      split
      · exact le_rfl
      · exact hbound
    · rw [due_self]
      exact carries_nil _
  | some since =>
    have hdeliv := hsoundHandle.delivered since hsince
    have hle := hsoundHandle.since since hsince queue json hnode
    unfold Delivered at hdeliv
    unfold CursorSet at hset
    rw [hnode] at hdeliv hset
    rw [hrest, append_nil] at hdeliv
    have hsame : (if (queue.format json).start ≠ .oldest ∧ handle.cursor = 0 then
        (w.log queue).length else handle.cursor) = handle.cursor := by
      split
      next hunset =>
        rw [hset (by rw [hsince]; exact some_ne_none since) hunset.2 hunset.1, hunset.2]
      · rfl
    have hsinceOf : w.sinceOf index handle = since := by
      unfold sinceOf
      rw [hsince, getD_some]
    rw [hsame, hsinceOf]
    exact ⟨hle, hbound, hsoundHandle.lost, hdeliv, fun _ => rfl⟩

/-- A text of the timer is whole. -/
lemma Sound.refill_timer (hsound : w.Sound) (hhandle : w.files.handles[index]? = some handle)
    (hrest : w.rest index = []) {json : Bool} (hnode : handle.node = .timer json) (tick : Nat) :
    w.Refilled index handle (w.files.formatNode handle tick).1
      (w.files.formatNode handle tick).2 := by
  have hsoundHandle := hsound.handle index handle hhandle
  have htext : appendText textSize [] (timerText json tick) = timerText json tick := by
    rw [appendText_eq, nil_append]
    rw [length_nil, Nat.zero_add]
    exact length_timerText_lt json tick
  have hformat : w.files.formatNode handle tick = (timerText json tick, handle.cursor) := by
    rw [EventFiles.formatNode, hnode, ← htext]
  have hnone : w.overwritten handle = [] := by
    rw [overwritten, hnode]
  rw [hformat]
  refine ⟨⟨fun _ _ h => absurd (hnode.symm.trans h) nofun, ?_, ?_⟩, length_timerText_lt json tick,
    fun _ _ h => absurd (hnode.symm.trans h) nofun⟩
  · rw [hnone, append_nil]
    exact hsoundHandle.lost
  rw [hnode]
  cases hsince : (w.readers index).since with
  | none =>
    refine ⟨[tick], ?_⟩
    rw [(hsoundHandle.fresh hsince).1]
    simp
  | some since =>
    have hdeliv := hsoundHandle.delivered since hsince
    unfold Delivered at hdeliv
    rw [hnode, hrest, append_nil] at hdeliv
    obtain ⟨ticks, hticks⟩ := hdeliv
    refine ⟨ticks ++ [tick], ?_⟩
    rw [hticks]
    simp

section

variable {queue : Queue} {json : Bool} {cur : Nat} (hsound : w.Sound)
  (hhandle : w.files.handles[index]? = some handle) (hset : w.CursorSet index handle)
  (hrest : w.rest index = []) (hnode : handle.node = .events queue json)
  (hcur : (queue.format json).startCursor (w.files.queues queue) handle.cursor = cur)

include hnode hcur

lemma overwritten_of_startCursor : w.overwritten handle =
    List.range' cur (RingLog.next queue.capacity (w.log queue) cur - cur) := by
  rw [overwritten, hnode]
  dsimp only
  congr 1
  unfold RingLog.next
  omega

include hsound hhandle hset hrest

/-- The cursor is set, without a text. -/
lemma Sound.refill_silent (hsilent : (queue.format json).start = .silent ∧ handle.cursor = 0)
    {result : List Char × Nat} (hresult :
      (queue.format json).run (w.files.queues queue) queue.capacity handle.cursor = result) :
    w.Refilled index handle result.1 result.2 := by
  obtain ⟨hsince, hbound, hlost, hcarries, hstarted⟩ :=
    hsound.startCursor hhandle hset hrest hnode hcur
  have hover := overwritten_of_startCursor hnode hcur
  have hend : cur = (w.log queue).length := by
    rw [← hcur, Format.startCursor, if_pos ⟨by rw [hsilent.1]; decide, hsilent.2⟩,
      (hsound.rings queue).seq]
  have hrun : (queue.format json).run (w.files.queues queue) queue.capacity handle.cursor =
      ([], cur) := by
    rw [Format.run, if_pos hsilent, (hsound.rings queue).seq, hend]
  have hnone : w.overwritten handle = [] := by
    rw [hover, show RingLog.next queue.capacity (w.log queue) cur = cur by
      unfold RingLog.next; omega, Nat.sub_self]
    rfl
  rw [← hresult, hrun]
  refine ⟨⟨fun q j h => ?_, ?_, ?_⟩, show 0 < textSize by decide, fun q j h hsome hless => ?_⟩
  · cases hnode.symm.trans h
    exact ⟨hsince, hbound⟩
  · rwa [hnone, append_nil]
  · rw [hnode]
    rwa [hnone, append_nil, append_nil]
  · cases hnode.symm.trans h
    have hsame := hstarted hsome
    omega

lemma Sound.refill_events (hsilent : ¬((queue.format json).start = .silent ∧ handle.cursor = 0))
    (hrecords : w.RecordsFit handle) {result : List Char × Nat} (hresult :
      (queue.format json).run (w.files.queues queue) queue.capacity handle.cursor = result) :
    w.Refilled index handle result.1 result.2 := by
  obtain ⟨hsince, hbound, hlost, hcarries, hstarted⟩ :=
    hsound.startCursor hhandle hset hrest hnode hcur
  have hover := overwritten_of_startCursor hnode hcur
  have hnextLe : cur ≤ RingLog.next queue.capacity (w.log queue) cur := Nat.le_max_left _ _
  have hfits := hrecords
  unfold RecordsFit at hfits
  rw [hnode] at hfits
  obtain ⟨last, tail, hfirst, hlast, hmore, hrun, hshort, htail⟩ :=
    Format.run_spec (hsound.rings queue) queue.capacity_pos hsilent rfl
      (by rwa [hcur]) hfits (Format.opening_lt queue json)
  rw [hcur] at hfirst hmore hrun hshort
  have hadvance := @due_advance _ (w.log queue) _ _ _ last _ hsince hlost hnextLe hfirst
  rw [← hover] at hadvance
  rw [← hresult, hrun]
  refine ⟨⟨fun q j h => ?_, fun i hi => ?_, ?_⟩, hshort, fun q j h hsome hless => ?_⟩
  · cases hnode.symm.trans h
    exact ⟨hsince.trans (hnextLe.trans hfirst), hlast⟩
  · rcases mem_append.mp hi with hold | hnew
    · have hlt := hlost i hold
      omega
    · rw [hover, mem_range'_1] at hnew
      omega
  · rw [hnode]
    dsimp only
    rw [hadvance]
    exact hcarries.append htail
  · cases hnode.symm.trans h
    have hsame := hstarted hsome
    rw [hsame] at hmore
    refine hmore ?_
    have hpos := queue.capacity_pos
    unfold RingLog.next
    omega

end

lemma Sound.refill (hsound : w.Sound) (hhandle : w.files.handles[index]? = some handle)
    (hset : w.CursorSet index handle) (hrecords : w.RecordsFit handle) (hrest : w.rest index = [])
    (tick : Nat) :
    w.Refilled index handle (w.files.formatNode handle tick).1
      (w.files.formatNode handle tick).2 := by
  cases hnode : handle.node with
  | timer json => exact hsound.refill_timer hhandle hrest hnode tick
  | events queue json =>
    have hformat : (queue.format json).run (w.files.queues queue) queue.capacity handle.cursor =
        w.files.formatNode handle tick := by
      rw [EventFiles.formatNode, hnode]
    by_cases hsilent : (queue.format json).start = .silent ∧ handle.cursor = 0
    · exact hsound.refill_silent hhandle hset hrest hnode rfl hsilent hformat
    · exact hsound.refill_events hhandle hset hrest hnode rfl hsilent hrecords hformat

/-- A reader that goes on in its own text. -/
lemma HandleSound.ready (hsound : w.HandleSound index handle)
    (hhandle : w.files.handles[index]? = some handle) (howner : w.owner = some index) :
    w.Ready index handle (w.readers index).lost
      (w.files.text.drop handle.offset) handle.cursor := by
  have hrest : w.rest index = w.files.text.drop handle.offset := by
    unfold rest
    rw [hhandle]
    exact if_pos howner
  rcases hsince : (w.readers index).since with _ | since
  · exact absurd howner (hsound.fresh hsince).2.2
  have hsinceOf : w.sinceOf index handle = since := by
    unfold sinceOf
    rw [hsince, getD_some]
  have hdeliv := hsound.delivered since hsince
  unfold Delivered at hdeliv
  rw [hrest] at hdeliv
  refine ⟨fun queue json hnode => ?_, hsound.lost, ?_⟩
  · rw [hsinceOf]
    exact ⟨hsound.since since hsince queue json hnode, hsound.cursor queue json hnode⟩
  · rw [hsinceOf]
    exact hdeliv

/-- A reader that is given a part of what was left. -/
lemma Ready.handleSound {lost : List Nat} {left copied : List Char} {cur : Nat}
    (hready : w.Ready index handle lost left cur)
    (hnode : handle'.node = handle.node) (hcur : handle'.cursor = cur)
    (hreader : w'.readers index =
      ⟨(w.readers index).seen ++ copied, some (w.sinceOf index handle), lost⟩)
    (hrest : copied ++ w'.rest index = left) (hlog : w'.log = w.log) :
    w'.HandleSound index handle' where
  fresh hnone := by
    rw [hreader] at hnone
    cases hnone
  cursor queue json hevents := by
    rw [hlog, hcur]
    exact (hready.bound queue json (hnode.symm.trans hevents)).2
  since since hsince queue json hevents := by
    rw [hreader] at hsince
    cases hsince
    rw [hcur]
    exact (hready.bound queue json (hnode.symm.trans hevents)).1
  lost := by
    rw [hreader, hcur]
    exact hready.passed
  delivered since hsince := by
    have hdeliv := hready.delivered
    rw [hreader] at hsince
    cases hsince
    unfold Delivered
    rw [hreader, hnode, hcur, hlog, append_assoc, hrest]
    exact hdeliv

/-- A read that returns something. -/
lemma perform_read (hhandle : w.files.handles[index]? = some handle)
    (hsize : size ≠ 0) (heof : ¬EventFiles.AtEof handle) {files : EventFiles} {copied : List Char}
    {next : Handle} (hrefill : w.files.refill handle tick = (files, next))
    (hcopy : files.copyOut next size = (handle', copied)) :
    w.perform (.read index size tick) = { w with
      files := { files with handles := files.handles.set index handle' }
      owner := if w.files.Formats handle then some index else w.owner
      readers := update w.readers index (w.observe index handle copied) } := by
  have hread : w.files.read index size tick =
      ({ files with handles := files.handles.set index handle' }, copied) := by
    unfold EventFiles.read EventFiles.readFromEventfs
    rw [hhandle]
    dsimp only
    rw [if_neg hsize, if_neg heof, hrefill]
    rw [hcopy]
  simp only [perform, hhandle]
  rw [if_neg (not_or.mpr ⟨hsize, heof⟩), hread]

/-- What a read leaves, given that the reader is ready for it. -/
lemma Sound.of_read (hsound : w.Sound) (hhandle : w.files.handles[index]? = some handle)
    {files : EventFiles} {owner : Option Nat} {reader : Reader}
    (hqueues : files.queues = w.files.queues)
    (hhs : files.handles = w.files.handles) (htext : files.text.length < textSize)
    (howner : owner = some index) (hidle : ∀ other ≠ index, w.rest other = [])
    (hnew : ({ w with
        files := { files with handles := files.handles.set index handle' }
        owner := owner
        readers := Function.update w.readers index reader } : Watch).HandleSound index handle') :
    ({ w with
        files := { files with handles := files.handles.set index handle' }
        owner := owner
        readers := Function.update w.readers index reader } : Watch).Sound := by
  have hlt := (List.getElem?_eq_some_iff.mp hhandle).1
  refine ⟨?_, htext, fun other hother => ?_, fun other hother => ?_,
    fun other otherHandle hget => ?_⟩
  · rw [hqueues]
    exact hsound.rings
  · cases howner.symm.trans hother
    rw [length_set, hhs]
    exact hlt
  · dsimp only at hother ⊢
    rw [length_set, hhs] at hother
    rw [update_of_ne (by omega)]
    exact hsound.reader other hother
  · by_cases hsame : other = index
    · subst hsame
      rw [getElem?_set_self (by rwa [hhs])] at hget
      cases hget
      exact hnew
    · rw [getElem?_set_ne (Ne.symm hsame), hhs] at hget
      have hnot : owner ≠ some other := fun hbad =>
        hsame (Option.some.inj (hbad.symm.trans howner))
      refine (hsound.handle other otherHandle hget).transfer (update_of_ne hsame ..) ?_
        (fun hbad => absurd hbad hnot) fun queue => ⟨[], (append_nil _).symm⟩
      rw [hidle other hsame]
      unfold rest
      rw [getElem?_set_ne (Ne.symm hsame), hhs, hget]
      exact if_neg hnot

/-- A fitting read of a handle that is not behind the end of a JSON text. -/
lemma Sound.read_some (hsound : w.Sound) (hhandle : w.files.handles[index]? = some handle)
    (hfits : w.ReadFits index handle) (hsize : size ≠ 0)
    (heof : ¬EventFiles.AtEof handle) (tick : Nat) :
    (w.perform (.read index size tick)).Sound ∧
      ∃ handle', (w.perform (.read index size tick)).files.handles[index]? = some handle' ∧
        (w.files.Formats handle → handle'.cursor = (w.files.formatNode handle tick).2) := by
  have hlt := (List.getElem?_eq_some_iff.mp hhandle).1
  -- only the owner has something left
  have hothers : ∀ owner, w.owner = some owner → ∀ other ≠ owner, w.rest other = [] := by
    intro owner howner other hne
    unfold rest
    split
    · rfl
    · exact if_neg fun hbad => hne (Option.some.inj (hbad.symm.trans howner))
  unfold ReadFits at hfits
  rw [if_neg heof] at hfits
  by_cases hfmt : w.files.Formats handle
  · rw [if_pos hfmt] at hfits
    obtain ⟨hidle, hset, hrecords⟩ := hfits
    have hempty : ∀ other, w.rest other = [] := by
      intro other
      unfold rest at hidle ⊢
      split
      · rfl
      next otherHandle hother =>
        split
        next howner =>
          have hnone := hidle other howner
          rw [hother] at hnone
          dsimp only at hnone
          rwa [if_pos howner] at hnone
        · rfl
    have hrefilled := hsound.refill hhandle hset hrecords (hempty index) tick
    generalize hformat : w.files.formatNode handle tick = result at hrefilled ⊢
    obtain ⟨text, cursor⟩ := result
    have hrefill : w.files.refill handle tick =
        ({ w.files with text := text, textNode := some handle.node },
          { handle with cursor := cursor, offset := 0 }) := by
      rw [EventFiles.refill, if_pos hfmt, hformat]
    obtain ⟨hnode, hcur, hsplit⟩ := EventFiles.copyOut_spec
      { w.files with text := text, textNode := some handle.node }
      { handle with cursor := cursor, offset := 0 } size hrefilled.short
    generalize hcopy :
      EventFiles.copyOut { w.files with text := text, textNode := some handle.node }
      { handle with cursor := cursor, offset := 0 } size = copy at hnode hcur hsplit
    obtain ⟨handle', copied⟩ := copy
    rw [perform_read hhandle hsize heof hrefill hcopy]
    refine ⟨?_, handle', getElem?_set_self hlt, fun _ => hcur⟩
    refine hsound.of_read hhandle rfl rfl hrefilled.short (if_pos hfmt)
      (fun other _ => hempty other) ?_
    have hobserve : w.observe index handle copied = ⟨(w.readers index).seen ++ copied,
        some (w.sinceOf index handle), (w.readers index).lost ++ w.overwritten handle⟩ := by
      rw [observe, if_pos hfmt]
      rfl
    refine hrefilled.toReady.handleSound hnode hcur ((update_self ..).trans hobserve) ?_ rfl
    refine Eq.trans ?_ (hsplit.trans (drop_zero (l := text)))
    unfold rest
    rw [getElem?_set_self hlt]
    dsimp only
    rw [if_pos (if_pos hfmt)]
  · rw [if_neg hfmt] at hfits
    have hrefill : w.files.refill handle tick = (w.files, handle) := by
      rw [EventFiles.refill, if_neg hfmt]
    obtain ⟨hnode, hcur, hsplit⟩ := EventFiles.copyOut_spec w.files handle size hsound.text
    generalize hcopy : w.files.copyOut handle size = copy at hnode hcur hsplit
    obtain ⟨handle', copied⟩ := copy
    rw [perform_read hhandle hsize heof hrefill hcopy]
    refine ⟨?_, handle', getElem?_set_self hlt, fun hbad => absurd hbad hfmt⟩
    refine hsound.of_read hhandle rfl rfl hsound.text ((if_neg hfmt).trans hfits)
      (hothers index hfits) ?_
    have hobserve : w.observe index handle copied = ⟨(w.readers index).seen ++ copied,
        some (w.sinceOf index handle), (w.readers index).lost⟩ := by
      rw [observe, if_neg hfmt]
      rfl
    refine ((hsound.handle index handle hhandle).ready hhandle hfits).handleSound hnode hcur
      ((update_self ..).trans hobserve) ?_ rfl
    refine Eq.trans ?_ hsplit
    unfold rest
    rw [getElem?_set_self hlt]
    dsimp only
    rw [if_pos ((if_neg hfmt).trans hfits)]

lemma Sound.read (hsound : w.Sound) (hfits : w.Fits (.read index size tick)) :
    (w.perform (.read index size tick)).Sound := by
  cases hhandle : w.files.handles[index]? with
  | none =>
    simp only [perform, hhandle]
    exact hsound
  | some handle =>
    by_cases hnop : size = 0 ∨ EventFiles.AtEof handle
    · simp only [perform, hhandle]
      rw [if_pos hnop]
      exact hsound
    · obtain ⟨hsize, heof⟩ := not_or.mp hnop
      have hread := (hfits.resolve_left hsize) handle hhandle
      exact (hsound.read_some hhandle hread hsize heof tick).1

lemma Sound.perform (hsound : w.Sound) (call : Call) (hfits : w.Fits call) :
    (w.perform call).Sound := by
  cases call with
  | emit queue tick event => exact hsound.emit hfits
  | «open» node => exact hsound.open node
  | read index size tick => exact hsound.read hfits

/-! ## Every run -/

/-- Every reader has been given what it is due. A reader that has used up its text is
given the first event that waits for it. -/
structure Delivers (w : Watch) : Prop where
  delivered : ∀ index handle since, w.files.handles[index]? = some handle →
    (w.readers index).since = some since → w.Delivered index handle since
  takes : ∀ index handle queue json size tick, w.files.handles[index]? = some handle →
    handle.node = .events queue json → (w.readers index).since ≠ none → w.rest index = [] →
    handle.cursor < (w.log queue).length → size ≠ 0 → w.Fits (.read index size tick) →
    ∃ handle', (w.perform (.read index size tick)).files.handles[index]? = some handle' ∧
      RingLog.next queue.capacity (w.log queue) handle.cursor < handle'.cursor

lemma Sound.delivers (hsound : w.Sound) : w.Delivers where
  delivered index handle since hhandle hsince :=
    (hsound.handle index handle hhandle).delivered since hsince
  takes index handle queue json size tick hhandle hnode hsince hrest hless hsize hfits := by
    have hread := hfits.resolve_left hsize handle hhandle
    have heof : ¬EventFiles.AtEof handle := by
      intro heof
      have hcaught := hread
      unfold ReadFits CaughtUp at hcaught
      rw [if_pos heof, hnode] at hcaught
      exact absurd hcaught hless.ne
    have hfmt : w.files.Formats handle := by
      by_contra hnot
      have howner := hread
      unfold ReadFits at howner
      rw [if_neg heof, if_neg hnot] at howner
      unfold rest at hrest
      rw [hhandle] at hrest
      dsimp only at hrest
      rw [if_pos howner, drop_eq_nil_iff] at hrest
      exact hnot (.inr (.inl hrest))
    obtain ⟨-, handle', hhandle', hcur⟩ := hsound.read_some hhandle hread hsize heof tick
    refine ⟨handle', hhandle', ?_⟩
    unfold ReadFits at hread
    rw [if_neg heof, if_pos hfmt] at hread
    rw [hcur hfmt]
    exact (hsound.refill hhandle hread.2.1 hread.2.2 hrest tick).takes queue json hnode hsince hless

/-- In every run of emissions, openings and reads that all meet the condition, every
reader is given each event once, whole and in order. -/
theorem run_delivers (calls : List Call) (hfits : RunFits perform Fits start calls) :
    (run perform start calls).Delivers :=
  (run_preserves Sound (fun _ call hsound => hsound.perform call) sound_start hfits).delivers

/-- A reader that reads while events come in. -/
def piecewiseRun : List Call :=
  [.emit .fileChange 5 (FileChange.mk "create".toList "/a".toList 0 7),
    .open (.events .fileChange false), .read 0 64 6,
    .emit .fileChange 7 (FileChange.mk "write".toList "/a".toList 3 7), .read 0 20 8,
    .emit .fileChange 9 (FileChange.mk "remove".toList "/a".toList 0 7), .read 0 100 9,
    .read 0 100 9]

/-- The reader sees the events of the file, with the counters behind each batch. -/
theorem piecewiseRun_delivers : (run perform start piecewiseRun).Delivers ∧
      ((run perform start piecewiseRun).readers 0).seen =
        ("event file.change seq=2 tick=7 op=write path=/a bytes=3 id=7\n" ++
          "pending 2\ndropped 0\n" ++
          "event file.change seq=3 tick=9 op=remove path=/a bytes=0 id=7\n" ++
          "pending 3\ndropped 0\n").toList :=
  ⟨run_delivers piecewiseRun (by decide +kernel), by decide +kernel⟩

/-- A first read before any event leaves the cursor at zero. The event that is recorded
then is passed over by the second read, and the third finds nothing. -/
theorem first_event_lost :
    let w := run perform start [.open (.events .fileChange false), .read 0 100 1,
      .emit .fileChange 2 (FileChange.mk "write".toList "/a".toList 3 7), .read 0 100 3]
    (w.log .fileChange).length = 1 ∧ (w.readers 0).since = some 0 ∧ (w.readers 0).lost = [] ∧
      ¬w.Delivers ∧
      ((w.perform (.read 0 100 4)).readers 0).seen =
        "type file.change\nstatus empty\npending 1\ndropped 0\nsource /event/file/change\n".toList
      := by
  intro w
  have hsince : (w.readers 0).since = some 0 := by decide +kernel
  refine ⟨by decide +kernel, hsince, by decide +kernel, fun hdelivers => ?_, by decide +kernel⟩
  have hhandle : w.files.handles[0]? = some ⟨.events .fileChange false, 1, 0⟩ := by decide +kernel
  have hdeliv : Carries fileEvents (due (w.log .fileChange) 0 1 (w.readers 0).lost)
      ((w.readers 0).seen ++ w.rest 0) := hdelivers.delivered 0 _ 0 hhandle hsince
  have hdue : (due (w.log .fileChange) 0 1 (w.readers 0).lost).length = 1 := by decide +kernel
  have hnil := hdeliv.eq_nil fun entry => append_ne_nil_of_left_ne_nil (by decide) _
  exact absurd (hdue.symm.trans (congrArg List.length hnil)) (by decide)

end Watch

end NexOS.Event
