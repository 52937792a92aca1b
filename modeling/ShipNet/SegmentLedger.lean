import Mathlib.Data.List.Perm.Basic
import ShipNet.Avoidance
import ShipNet.ByteBuffer

/-! The segments of a byte buffer from their allocation to their deletion, over any
calls in any order, also those that lose track of the bytes. -/
namespace ShipNet.ByteBufferImpl
open Fallible

/-- `Release`, which the destructor calls. A segment that was deleted before is
deleted twice. -/
def release (s : ByteBufferImpl) : Exec ByteBufferImpl :=
  loop .endless (whileRound (fun s => !s.buffers.isEmpty) fun s =>
    match s.buffers with
    | [] => throw .emptyDeque
    | front :: rest =>
      if front ∈ s.freed then throw .freedSegment
      else pure { s with freed := front :: s.freed, buffers := rest })
    (s.buffers.length + 1) s

/-- A call of any method that moves bytes or indices. -/
inductive Call where
  | writeByte (input : UInt8)
  | writeBytes (input : List UInt8)
  | writeBytesAndDelete (input : List UInt8)
  | readByteUnsafe
  | readByte
  | readBytes (output : OutputArray) (size : Nat)
  | skipReadBytes (count : Nat)
  | skipWriteBytes (count : UInt64)
  | resetReaderIndex
  | resetWriterIndex
  | tryRefreshReaderBuffer
  | tryRefreshWriterBuffer
  | appendBuffer
  | popBuffer

/-- The buffer after the call, and whether an array was taken over by it. -/
def perform (s : ByteBufferImpl) : Call → Exec (ByteBufferImpl × Bool)
  | .writeByte input => return (← s.writeByte input, false)
  | .writeBytes input => return (← s.writeBytes input, false)
  | .writeBytesAndDelete input =>
    return (← s.writeBytesAndDelete input, decide (s.localWriterIndex = 0 ∧ input.length = s.singleCapacity))
  | .readByteUnsafe => return ((← s.readByteUnsafe).2, false)
  | .readByte => return ((← s.readByte).2, false)
  | .readBytes output size => return ((← s.readBytes output size).2.2, false)
  | .skipReadBytes count => return ((← s.skipReadBytes count).2, false)
  | .skipWriteBytes count => return ((← s.skipWriteBytes count).2, false)
  | .resetReaderIndex => return (s.resetReaderIndex, false)
  | .resetWriterIndex => return (s.resetWriterIndex, false)
  | .tryRefreshReaderBuffer => return (← s.tryRefreshReaderBuffer, false)
  | .tryRefreshWriterBuffer => return (s.tryRefreshWriterBuffer, false)
  | .appendBuffer => return (s.appendBuffer, false)
  | .popBuffer => return (← s.popBuffer, false)

/-- Every segment that was allocated is deleted, in the deque or lost, and in one of
these places once. The pointers lead into the deque, or to a segment that is lost. -/
structure Ledger (lost : List Nat) (s : ByteBufferImpl) : Prop where
  accounted : (s.freed ++ (s.buffers ++ lost)).Perm (List.range s.nextSegment)
  reader : s.buffers.head? = some s.currentReadBuffer ∨ s.currentReadBuffer ∈ lost
  writer : s.buffers.getLast? = some s.currentWriteBuffer ∨ s.currentWriteBuffer ∈ lost

variable {lost : List Nat} {s : ByteBufferImpl}

theorem ledger_new (heap : Nat → Block UInt8) (cap : Nat) : Ledger [] (new heap cap) where
  accounted := by simp [new]
  reader := .inl rfl
  writer := .inl rfl

/-- What is in the deque or lost has not been deleted. -/
theorem Ledger.not_freed (held : Ledger lost s) {address : Nat} (kept : address ∈ s.buffers ++ lost) :
    address ∉ s.freed := by
  have distinct := held.accounted.nodup_iff.mpr List.nodup_range
  intro freed
  exact (List.nodup_append.mp distinct).2.2 _ freed _ kept rfl

theorem Ledger.reader_live (held : Ledger lost s) : s.currentReadBuffer ∉ s.freed := by
  rcases held.reader with first | missing
  · exact held.not_freed (List.mem_append_left _ (List.mem_of_head? first))
  · exact held.not_freed (List.mem_append_right _ missing)

theorem Ledger.writer_live (held : Ledger lost s) : s.currentWriteBuffer ∉ s.freed := by
  rcases held.writer with last | missing
  · exact held.not_freed (List.mem_append_left _ (List.mem_of_getLast? last))
  · exact held.not_freed (List.mem_append_right _ missing)

/-! ### The segments -/

theorem Ledger.fetch (held : Ledger lost s) (offset count : Nat) :
    Avoids .freedSegment (s.fetch offset count) fun _ => True := by
  unfold ByteBufferImpl.fetch
  rw [if_neg held.reader_live]
  split
  · simp
  · trivial

theorem Ledger.store (held : Ledger lost s) (offset : Nat) (bytes : List UInt8) :
    Avoids .freedSegment (s.store offset bytes) (Ledger lost) := by
  unfold ByteBufferImpl.store
  rw [if_neg held.writer_live]
  split
  · simp
  · exact ⟨held.accounted, held.reader, held.writer⟩

theorem Ledger.appendBuffer (held : Ledger lost s) : Ledger lost s.appendBuffer where
  accounted := by
    simp only [ByteBufferImpl.appendBuffer, List.range_succ]
    have moved : (s.freed ++ (s.buffers ++ [s.nextSegment] ++ lost)).Perm
        (s.freed ++ (s.buffers ++ lost) ++ [s.nextSegment]) := by
      simp only [List.append_assoc]
      exact (List.perm_append_comm.append_left _).append_left _
    exact moved.trans (held.accounted.append_right _)
  reader := by
    rcases held.reader with first | missing
    · exact .inl (by simp [ByteBufferImpl.appendBuffer, first])
    · exact .inr missing
  writer := .inl (by simp [ByteBufferImpl.appendBuffer])

theorem Ledger.popBuffer (held : Ledger lost s) : Avoids .freedSegment s.popBuffer (Ledger lost) := by
  obtain ⟨accounted, reader, writer⟩ := held
  unfold ByteBufferImpl.popBuffer
  split
  · next front next rest split =>
    rw [split] at accounted writer
    refine (avoids_ok _ _).mpr ⟨?_, .inl rfl, ?_⟩
    · exact (List.perm_middle.symm).trans accounted
    · rwa [List.getLast?_cons_cons] at writer
  · simp

/-- The heap and the indices have no part in the ledger. -/
theorem Ledger.of_same {after : ByteBufferImpl} (held : Ledger lost s) (freed : after.freed = s.freed)
    (buffers : after.buffers = s.buffers) (nextSegment : after.nextSegment = s.nextSegment)
    (reader : after.currentReadBuffer = s.currentReadBuffer)
    (writer : after.currentWriteBuffer = s.currentWriteBuffer) : Ledger lost after where
  accounted := by rw [freed, buffers, nextSegment]; exact held.accounted
  reader := by rw [buffers, reader]; exact held.reader
  writer := by rw [buffers, writer]; exact held.writer

/-! ### The operations -/

theorem Ledger.tryRefreshReaderBuffer (held : Ledger lost s) :
    Avoids .freedSegment s.tryRefreshReaderBuffer (Ledger lost) := by
  unfold ByteBufferImpl.tryRefreshReaderBuffer
  split
  · exact held.popBuffer
  · exact held

theorem Ledger.tryRefreshWriterBuffer (held : Ledger lost s) : Ledger lost s.tryRefreshWriterBuffer := by
  unfold ByteBufferImpl.tryRefreshWriterBuffer
  split
  · exact held.appendBuffer
  · exact held

theorem Ledger.writeByte (held : Ledger lost s) (input : UInt8) :
    Avoids .freedSegment (s.writeByte input) (Ledger lost) :=
  (held.tryRefreshWriterBuffer.store _ _).bind fun _ stored => stored.of_same rfl rfl rfl rfl rfl

private theorem Ledger.fillSegment {w : Writing} (held : Ledger lost w.buffer) (input : List UInt8) (copied : Nat) :
    Avoids .freedSegment (w.fillSegment input copied) fun next => Ledger lost next.buffer :=
  (held.store _ _).bind fun stored kept =>
    (kept.of_same rfl rfl rfl rfl rfl :
      Ledger lost { stored with readableBytes := stored.readableBytes + copied }).appendBuffer

private theorem Ledger.crossSegments {w : Writing} (held : Ledger lost w.buffer) (input : List UInt8) :
    Avoids .freedSegment (w.crossSegments input) fun next => Ledger lost next.buffer := by
  unfold Writing.crossSegments
  split
  · refine (held.fillSegment input _).bind fun next filled => ?_
    refine (avoids_while (fun w : Writing => Ledger lost w.buffer) (by simp) ?_ filled).mono fun _ done => done.1
    exact fun w kept _ => kept.fillSegment input _
  · exact held

theorem Ledger.writeBytes (held : Ledger lost s) (input : List UInt8) :
    Avoids .freedSegment (s.writeBytes input) (Ledger lost) := by
  refine (held.tryRefreshWriterBuffer.crossSegments (w := ⟨_, input.length, 0⟩) input).bind fun w crossed => ?_
  exact (crossed.store _ _).bind fun _ stored => stored.of_same rfl rfl rfl rfl rfl

/-- An array that is taken over stands for the last segment, which is lost. -/
theorem Ledger.takeOver (held : Ledger lost s) {front : List Nat} {last : Nat} (split : s.buffers = front ++ [last])
    (heap : Nat → Block UInt8) :
    Ledger (last :: lost) { s with
      heap := heap
      nextSegment := s.nextSegment + 1
      buffers := s.buffers.dropLast ++ [s.nextSegment] } where
  accounted := by
    have accounted := held.accounted
    simp only [split, List.dropLast_concat, List.range_succ, List.append_assoc] at accounted ⊢
    have moved : (s.freed ++ (front ++ ([s.nextSegment] ++ last :: lost))).Perm
        (s.freed ++ (front ++ ([last] ++ lost)) ++ [s.nextSegment]) := by
      simp only [List.append_assoc]
      refine List.Perm.append_left _ (List.Perm.append_left _ ?_)
      exact List.perm_append_comm
    exact moved.trans (accounted.append_right _)
  reader := by
    rcases held.reader with first | missing
    · cases front with
      | nil =>
        rw [split] at first
        exact .inr (by simp_all)
      | cons head front =>
        rw [split, List.cons_append, List.head?_cons] at first
        exact .inl (by simp [split, List.dropLast_cons_of_ne_nil, Option.some.inj first])
    · exact .inr (List.mem_cons_of_mem _ missing)
  writer := by
    rcases held.writer with same | missing
    · rw [split, List.getLast?_concat] at same
      exact .inr (by simp_all)
    · exact .inr (List.mem_cons_of_mem _ missing)

/-- An array that is not taken over is copied. -/
theorem Ledger.writeBytesAndDelete (held : Ledger lost s) (input : List UInt8) :
    Avoids .freedSegment (s.writeBytesAndDelete input) fun after =>
      ∃ more, Ledger (more ++ lost) after ∧
        more.length = [decide (s.localWriterIndex = 0 ∧ input.length = s.singleCapacity)].count true := by
  unfold ByteBufferImpl.writeBytesAndDelete
  by_cases whole : s.localWriterIndex = 0 ∧ input.length = s.singleCapacity
  · rw [if_pos whole]
    split
    · simp
    · next nonempty =>
      obtain ⟨front, last, split⟩ := List.eq_nil_or_concat s.buffers |>.resolve_left nonempty
      exact ⟨[last], held.takeOver (by simpa using split) _, by simp [whole]⟩
  · rw [if_neg whole]
    exact (held.writeBytes input).mono fun after kept => ⟨[], kept, by simp [whole]⟩

theorem Ledger.readByteUnsafe (held : Ledger lost s) :
    Avoids .freedSegment s.readByteUnsafe fun out => Ledger lost out.2 :=
  held.tryRefreshReaderBuffer.bind fun _ refreshed =>
    (refreshed.fetch _ _).bind fun _ _ => refreshed.of_same rfl rfl rfl rfl rfl

theorem Ledger.readByte (held : Ledger lost s) : Avoids .freedSegment s.readByte fun out => Ledger lost out.2 := by
  unfold ByteBufferImpl.readByte
  split
  · exact held
  · exact held.readByteUnsafe.bind fun _ read => read

private theorem avoids_output (output : OutputArray) (offset : Nat) (bytes : List UInt8) :
    Avoids .freedSegment (output.store offset bytes) fun _ => True := by
  unfold OutputArray.store
  split
  · simp
  · trivial

private theorem Ledger.drainSegment {r : Reading} (held : Ledger lost r.buffer) (copied : Nat) :
    Avoids .freedSegment (r.drainSegment copied) fun next => Ledger lost next.buffer := by
  refine (held.fetch _ _).bind fun bytes _ => (avoids_output _ _ _).bind fun output _ => ?_
  have same : Ledger lost { r.buffer with
      readableBytes := r.buffer.readableBytes - copied
      localReaderIndex := 0 } := held.of_same rfl rfl rfl rfl rfl
  exact same.popBuffer.bind fun _ popped => popped

private theorem Ledger.crossReading {r : Reading} (held : Ledger lost r.buffer) :
    Avoids .freedSegment r.crossSegments fun next => Ledger lost next.buffer := by
  unfold Reading.crossSegments
  split
  · refine (held.drainSegment _).bind fun next drained => ?_
    refine (avoids_while (fun r : Reading => Ledger lost r.buffer) (by simp) ?_ drained).mono fun _ done => done.1
    exact fun r kept _ => kept.drainSegment _
  · exact held

theorem Ledger.readBytes (held : Ledger lost s) (output : OutputArray) (size : Nat) :
    Avoids .freedSegment (s.readBytes output size) fun out => Ledger lost out.2.2 := by
  unfold ByteBufferImpl.readBytes
  split
  · exact held
  · refine held.tryRefreshReaderBuffer.bind fun refreshed kept => ?_
    refine (kept.crossReading (r := ⟨refreshed, output, size, 0⟩)).bind fun r crossed => ?_
    refine (crossed.fetch _ _).bind fun bytes _ => (avoids_output _ _ _).bind fun filled _ => ?_
    exact crossed.of_same rfl rfl rfl rfl rfl

theorem Ledger.skipReadBytes (held : Ledger lost s) (count : Nat) :
    Avoids .freedSegment (s.skipReadBytes count) fun out => Ledger lost out.2 := by
  unfold ByteBufferImpl.skipReadBytes
  split
  · exact held
  · have same : Ledger lost { s with readableBytes := s.readableBytes - count } :=
      held.of_same rfl rfl rfl rfl rfl
    refine (avoids_while (fun state : ByteBufferImpl × Nat => Ledger lost state.1) (by simp) ?_ same).bind ?_
    · rintro ⟨reached, left⟩ kept _
      exact kept.popBuffer.bind fun _ popped => popped
    · rintro ⟨reached, left⟩ ⟨kept, -⟩
      have moved : Ledger lost { reached with localReaderIndex := left } := kept.of_same rfl rfl rfl rfl rfl
      exact moved.tryRefreshReaderBuffer.bind fun _ refreshed => refreshed

theorem Ledger.skipWriteBytes (held : Ledger lost s) (count : UInt64) :
    Avoids .freedSegment (s.skipWriteBytes count) fun out => Ledger lost out.2 := by
  have same : Ledger lost { s with readableBytes := s.readableBytes + count.toNat } :=
    held.of_same rfl rfl rfl rfl rfl
  refine (avoids_while (fun state : ByteBufferImpl × UInt64 => Ledger lost state.1) (by simp) ?_ same).bind ?_
  · rintro ⟨reached, left⟩ kept _
    exact kept.appendBuffer
  · rintro ⟨reached, left⟩ ⟨kept, -⟩
    have moved : Ledger lost { reached with localWriterIndex := left.toNat } := kept.of_same rfl rfl rfl rfl rfl
    exact moved.tryRefreshWriterBuffer

/-- A call keeps the ledger, and loses a segment exactly if it takes over an array. -/
theorem Ledger.perform (held : Ledger lost s) (call : Call) :
    Avoids .freedSegment (s.perform call) fun out =>
      ∃ more, Ledger (more ++ lost) out.1 ∧ more.length = [out.2].count true := by
  have keeps {after : ByteBufferImpl} (kept : Ledger lost after) :
      ∃ more, Ledger (more ++ lost) after ∧ more.length = [false].count true := ⟨[], kept, rfl⟩
  cases call with
  | writeByte input => exact (held.writeByte input).bind fun _ => keeps
  | writeBytes input => exact (held.writeBytes input).bind fun _ => keeps
  | writeBytesAndDelete input => exact (held.writeBytesAndDelete input).bind fun _ written => written
  | readByteUnsafe => exact held.readByteUnsafe.bind fun _ => keeps
  | readByte => exact held.readByte.bind fun _ => keeps
  | readBytes output size => exact (held.readBytes output size).bind fun _ => keeps
  | skipReadBytes count => exact (held.skipReadBytes count).bind fun _ => keeps
  | skipWriteBytes count => exact (held.skipWriteBytes count).bind fun _ => keeps
  | resetReaderIndex => exact keeps (held.of_same rfl rfl rfl rfl rfl)
  | resetWriterIndex => exact keeps (held.of_same rfl rfl rfl rfl rfl)
  | tryRefreshReaderBuffer => exact held.tryRefreshReaderBuffer.bind fun _ => keeps
  | tryRefreshWriterBuffer => exact keeps held.tryRefreshWriterBuffer
  | appendBuffer => exact keeps held.appendBuffer
  | popBuffer => exact held.popBuffer.bind fun _ => keeps

/-! ### Runs and the destructor -/

/-- On a buffer with a ledger the destructor returns, and deletes all that is in the deque. -/
theorem Ledger.release (held : Ledger lost s) :
    Returns s.release fun after => after.buffers = [] ∧ (after.freed ++ lost).Perm (List.range s.nextSegment) := by
  let Kept (s' : ByteBufferImpl) : Prop := (s'.freed ++ (s'.buffers ++ lost)).Perm (List.range s.nextSegment)
  refine (while_returns Kept (fun s => s.buffers.length) ?_ held.accounted (Nat.lt_succ_self _)).mono ?_
  · intro reached kept more
    cases split : reached.buffers with
    | nil => simp [split] at more
    | cons front rest =>
      have distinct := kept.nodup_iff.mpr List.nodup_range
      have live : front ∉ reached.freed := by
        intro freed
        exact (List.nodup_append.mp distinct).2.2 _ freed _ (by simp [split]) rfl
      have moved := @List.perm_middle Nat front reached.freed (rest ++ lost)
      simp only [Kept, split] at kept
      simp only [if_neg live, pure_is_ok, returns_ok]
      exact ⟨moved.symm.trans kept, by simp⟩
  · rintro final ⟨kept, ended⟩
    have empty : final.buffers = [] := by simpa using ended
    simp only [Kept, empty, List.nil_append] at kept
    exact ⟨empty, kept⟩

end ShipNet.ByteBufferImpl
