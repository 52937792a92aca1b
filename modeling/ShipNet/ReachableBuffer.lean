import ShipNet.IndexReset
import ShipNet.SkipWrite

/-! The states of a buffer over all of its operations. Those that assign an index, or
a segment, without a look at the other segments count only where nothing is lost by it. -/
namespace ShipNet.ByteBufferImpl
open Fallible

variable {cap : Nat}

/-- A state that operations lead to from a fresh buffer of this capacity. The typed reads
and writes and the transfers are made of these. -/
inductive Reachable (cap : Nat) : ByteBufferImpl → Prop
  | new (heap : Nat → Block UInt8) : Reachable cap (.new heap cap)
  | called {s after : ByteBufferImpl} {operation : Operation} {reply : Fifo.Reply UInt8} (reachable : Reachable cap s)
      (room : operation.HasRoom) (ran : s.step operation = .ok (after, reply)) : Reachable cap after
  | readerRefreshed {s after : ByteBufferImpl} (reachable : Reachable cap s)
      (ran : s.tryRefreshReaderBuffer = .ok after) : Reachable cap after
  | writerRefreshed {s : ByteBufferImpl} (reachable : Reachable cap s) : Reachable cap s.tryRefreshWriterBuffer
  | readerReset {s : ByteBufferImpl} (reachable : Reachable cap s) : Reachable cap s.resetReaderIndex
  /-- The reader is where the last segment begins. -/
  | writerReset {s : ByteBufferImpl} (reachable : Reachable cap s)
      (begins : s.localReaderIndex = (s.buffers.length - 1) * cap) : Reachable cap s.resetWriterIndex
  /-- The skip starts where a segment begins, or goes past the end of one. -/
  | readSkipped {s after : ByteBufferImpl} {count : Nat} {result : Errorable Nat} (reachable : Reachable cap s)
      (far : s.localReaderIndex = 0 ∨ cap - s.localReaderIndex < count)
      (ran : s.skipReadBytes count = .ok (result, after)) : Reachable cap after
  /-- The writer is where a segment begins. -/
  | writeSkipped {s after : ByteBufferImpl} {count rest : UInt64} (reachable : Reachable cap s)
      (begins : s.localWriterIndex = 0) (ran : s.skipWriteBytes count = .ok (rest, after)) : Reachable cap after
  /-- The array is copied, not taken over. -/
  | deleted {s after : ByteBufferImpl} {input : List UInt8} (reachable : Reachable cap s)
      (copied : ¬ (s.localWriterIndex = 0 ∧ input.length = cap)) (ran : s.writeBytesAndDelete input = .ok after) :
      Reachable cap after

/-- Whatever led to it, the buffer is a well-formed one. -/
theorem Reachable.represents {s : ByteBufferImpl} (reachable : Reachable cap s) (positive : 0 < cap) :
    Represents cap s.content s := by
  have holds : ∃ bytes, Represents cap bytes s := by
    induction reachable with
    | new heap => exact ⟨[], represents_new heap positive⟩
    | called _ room ran ih =>
      obtain ⟨bytes, held⟩ := ih
      exact step_ok_represents held room ran
    | readerRefreshed _ ran ih =>
      obtain ⟨bytes, held⟩ := ih
      exact ⟨bytes, refreshed_represents held ran⟩
    | writerRefreshed _ ih =>
      obtain ⟨bytes, held⟩ := ih
      exact ⟨bytes, (tryRefreshWriterBuffer_represents held).1⟩
    | readerReset _ ih =>
      obtain ⟨bytes, held⟩ := ih
      exact ⟨_, held.wellFormed.reset, held.capacity, rfl⟩
    | writerReset _ begins ih =>
      obtain ⟨bytes, held⟩ := ih
      refine ⟨_, { held.wellFormed with writerIndex := Nat.zero_le _, balance := ?_ }, held.capacity, rfl⟩
      simp only [resetWriterIndex, Nat.zero_add, Nat.add_zero, held.capacity]
      exact begins
    | readSkipped _ far ran ih =>
      obtain ⟨bytes, held⟩ := ih
      exact skipReadBytes_keeps held far ran
    | writeSkipped _ begins ran ih =>
      obtain ⟨bytes, held⟩ := ih
      obtain ⟨out, same, gap, -, appended⟩ := skip_from_start_appends held begins _
      cases ran.symm.trans same
      exact ⟨_, appended⟩
    | @deleted s _ input _ copied ran ih =>
      obtain ⟨bytes, held⟩ := ih
      obtain ⟨written, wrote, appended⟩ := writeBytes_represents held input
      rw [writeBytesAndDelete, held.capacity, if_neg copied, wrote] at ran
      cases ran
      exact ⟨_, appended⟩
  obtain ⟨bytes, held⟩ := holds
  rwa [held.content]

end ShipNet.ByteBufferImpl
