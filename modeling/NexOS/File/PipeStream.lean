import NexOS.File.Pipes
import NexOS.Lib.Ring

/-! # The bytes that go through a pipe

Readers and writers of one pipe in any order. The ring of a pipe, read from its read
position on, holds the bytes that were taken from writers and not yet given to readers.
-/

namespace NexOS.File

open Function List Nat

namespace FilePipe

/-- The bytes in the pipe, oldest first. -/
def buffered (pipe : FilePipe) : List (BitVec 8) :=
  Ring.contents pipe.buffer pipeBufferSize pipe.readPos pipe.count

/-- The write position is behind the last byte of the ring. -/
structure RingOk (pipe : FilePipe) : Prop where
  count_le : pipe.count ≤ pipeBufferSize
  readPos_lt : pipe.readPos < pipeBufferSize
  writePos_eq : pipe.writePos = (pipe.readPos + pipe.count) % pipeBufferSize

variable {pipe : FilePipe}

lemma readLoop_buffered (hok : pipe.RingOk) (size : Nat) :
    (readLoop size pipe).1 ++ (readLoop size pipe).2.buffered = pipe.buffered ∧
      (readLoop size pipe).2.RingOk := by
  induction size generalizing pipe with
  | zero => exact ⟨rfl, hok⟩
  | succ size ih =>
    obtain ⟨hcount, hread, hwrite⟩ := hok
    rw [readLoop]
    by_cases hempty : pipe.count = 0
    · simp only [if_pos hempty]
      exact ⟨rfl, hcount, hread, hwrite⟩
    obtain ⟨count, hsucc⟩ := exists_eq_succ_of_ne_zero hempty
    simp only [if_neg hempty]
    obtain ⟨hrest, hok⟩ := @ih { pipe with
        readPos := (pipe.readPos + 1) % pipeBufferSize, count := pipe.count - 1 }
      ⟨by dsimp only; omega, mod_lt _ (by decide), by
        dsimp only
        rw [hwrite, mod_add_mod]
        congr 1
        omega⟩
    refine ⟨?_, hok⟩
    rw [cons_append, hrest]
    show _ = Ring.contents pipe.buffer pipeBufferSize pipe.readPos pipe.count
    rw [hsucc, Ring.contents_pop hread]
    rfl

lemma writeLoop_buffered (hok : pipe.RingOk) (bytes : List (BitVec 8)) :
    (writeLoop bytes pipe).2.buffered = pipe.buffered ++ bytes.take (writeLoop bytes pipe).1 ∧
      (writeLoop bytes pipe).2.RingOk := by
  induction bytes generalizing pipe with
  | nil => exact ⟨(append_nil _).symm, hok⟩
  | cons byte bytes ih =>
    obtain ⟨hcount, hread, hwrite⟩ := hok
    rw [writeLoop]
    by_cases hroom : pipe.count < pipeBufferSize
    · simp only [if_pos hroom]
      obtain ⟨hrest, hok⟩ := @ih { pipe with
          buffer := update pipe.buffer pipe.writePos byte
          writePos := (pipe.writePos + 1) % pipeBufferSize
          count := pipe.count + 1 }
        ⟨hroom, hread, by dsimp only; rw [hwrite, mod_add_mod, add_assoc]⟩
      refine ⟨?_, hok⟩
      rw [hrest, take_succ_cons, append_cons]
      congr 1
      rw [hwrite]
      exact Ring.contents_push hroom byte
    · simp only [if_neg hroom]
      exact ⟨(append_nil _).symm, hcount, hread, hwrite⟩

lemma ringOk_clearData (pipe : FilePipe) : pipe.clearData.RingOk := ⟨zero_le _, succ_pos _, rfl⟩

end FilePipe

/-- A read or a write on some descriptor. -/
inductive Transfer where
  | read (cell : Cell) (size : Nat)
  | write (cell : Cell) (bytes : List (BitVec 8))

namespace System

/-- A transfer, with the bytes that it returns to a reader of a pipe and those that it
takes from a writer of the pipe. -/
def transfer (sys : System) (id : PipeId) : Transfer → List (BitVec 8) × List (BitVec 8) × System
  | .read cell size =>
    match sys.files cell, sys.read cell size with
    | .pipe .read other, (.done out, sys) => (if other = id then out else [], [], sys)
    | _, (_, sys) => ([], [], sys)
  | .write cell bytes =>
    match sys.files cell, sys.write cell bytes with
    | .pipe .write other, (.done total, sys) =>
      ([], if other = id then bytes.take total else [], sys)
    | _, (_, sys) => ([], [], sys)

/-- A list of transfers, with the bytes that went in and came out. -/
def transferAll (sys : System) (id : PipeId) :
    List Transfer → List (BitVec 8) × List (BitVec 8) × System
  | [] => ([], [], sys)
  | transfer :: rest =>
    let (out, taken, next) := sys.transfer id transfer
    let (outs, takens, final) := next.transferAll id rest
    (out ++ outs, taken ++ takens, final)

variable {sys : System} {id : PipeId}

lemma transfer_buffered (hok : (sys.pipes id).RingOk) (transfer : Transfer) :
    (sys.transfer id transfer).1 ++ ((sys.transfer id transfer).2.2.pipes id).buffered =
        (sys.pipes id).buffered ++ (sys.transfer id transfer).2.1 ∧
      ((sys.transfer id transfer).2.2.pipes id).RingOk := by
  have hsame : [] ++ (sys.pipes id).buffered = (sys.pipes id).buffered ++ [] ∧
      (sys.pipes id).RingOk := ⟨(append_nil _).symm, hok⟩
  cases transfer with
  | read cell size =>
    simp only [transfer, read]
    rcases hfile : sys.files cell with _ | _ | ⟨_ | _, other⟩ <;> dsimp only <;> try exact hsame
    by_cases hsize : size = 0
    · simp only [if_pos hsize, ite_self]
      exact hsame
    by_cases hempty : (sys.pipes other).count = 0
    · by_cases hwriters : (sys.pipes other).writers = 0#8 <;> simp [hsize, hempty, hwriters, hok]
    simp only [if_neg hsize, if_neg hempty, setPipe]
    by_cases hid : other = id
    · subst hid
      simpa using FilePipe.readLoop_buffered hok size
    · simpa [hid, update_of_ne (Ne.symm hid)] using hok
  | write cell bytes =>
    simp only [transfer, write]
    rcases hfile : sys.files cell with _ | _ | ⟨_ | _, other⟩ <;> dsimp only <;> try exact hsame
    by_cases hbytes : bytes = []
    · simp [hbytes, hok]
    by_cases hreaders : (sys.pipes other).readers = 0#8
    · simp [hbytes, hreaders, hok]
    by_cases hfull : pipeBufferSize ≤ (sys.pipes other).count
    · simp [hbytes, hreaders, hfull, hok]
    simp only [if_neg hbytes, if_neg hreaders, if_neg hfull, setPipe]
    by_cases hid : other = id
    · subst hid
      simpa using FilePipe.writeLoop_buffered hok bytes
    · simpa [hid, update_of_ne (Ne.symm hid)] using hok

lemma transferAll_buffered (hok : (sys.pipes id).RingOk) (transfers : List Transfer) :
    (sys.transferAll id transfers).1 ++ ((sys.transferAll id transfers).2.2.pipes id).buffered =
        (sys.pipes id).buffered ++ (sys.transferAll id transfers).2.1 ∧
      ((sys.transferAll id transfers).2.2.pipes id).RingOk := by
  induction transfers generalizing sys with
  | nil => exact ⟨(append_nil _).symm, hok⟩
  | cons transfer rest ih =>
    obtain ⟨hstep, hnext⟩ := transfer_buffered hok transfer
    obtain ⟨hrest, hfinal⟩ := ih hnext
    refine ⟨?_, hfinal⟩
    simp only [transferAll]
    rw [append_assoc, hrest, ← append_assoc, hstep, append_assoc]

/-- From an empty pipe on, whatever the order and the sizes of the transfers, the bytes
returned to readers and then those in the ring are the bytes taken from writers, and the
ring holds no more than its capacity. -/
theorem pipe_fifo (sys : System) (id : PipeId) (transfers : List Transfer) :
    let start := sys.setPipe id (sys.pipes id).clearData
    let (returned, taken, final) := start.transferAll id transfers
    returned ++ (final.pipes id).buffered = taken ∧
      (final.pipes id).buffered.length = (final.pipes id).count ∧
      (final.pipes id).count ≤ pipeBufferSize := by
  intro start
  have hstart : start.pipes id = (sys.pipes id).clearData := update_self ..
  obtain ⟨hbytes, hok⟩ := transferAll_buffered (hstart ▸ FilePipe.ringOk_clearData _) transfers
  rw [hstart] at hbytes
  exact ⟨hbytes, by simp [FilePipe.buffered, Ring.contents], hok.count_le⟩

end System

end NexOS.File
