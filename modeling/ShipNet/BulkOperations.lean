import ShipNet.BufferCalls
import ShipNet.ByteCounter
import ShipNet.SkipRead

/-! The bulk operations against what they stand for: `WriteBytes` and `ReadBytes`
against single bytes, `WriteBytesAndDelete` against `WriteBytes`, and a read of
nothing against no call at all. -/
namespace ShipNet.ByteBufferImpl
open Fallible

variable {s : ByteBufferImpl} {cap : Nat} {bytes : List UInt8}

/-! ### Bytes in bulk and one at a time -/

/-- `WriteBytes`, and `WriteByte` for each byte, lead to one and the same buffer: the
same segments with the same contents, the same indices and counts. -/
def WritesCoincide (s : ByteBufferImpl) (input : List UInt8) : Prop :=
  ∃ after, s.writeBytes input = .ok after ∧ s.writeEach input = .ok after

/-- Into an array that may hold anything before, `ReadBytes` reads what as many calls
of `ReadByteUnsafe` return, and both lead to one and the same buffer. -/
def ReadsCoincide (s : ByteBufferImpl) (count : Nat) : Prop :=
  ∀ output : OutputArray, count ≤ output.size → ∃ bytes filled after,
    s.readBytes output count = .ok (successErrorable bytes, filled, after) ∧
      filled.cells.read 0 count = bytes ∧ s.takeBytes count = .ok (bytes, after)

theorem readsCoincide_iff (held : Represents cap bytes s) {count : Nat} (more : 0 < count)
    (enough : count ≤ bytes.length) : ReadsCoincide s count ↔ s.lastPieceOffset count < 2 ^ 32 := by
  obtain ⟨⟨taken, after⟩, took, -, -⟩ := takeBytes_represents held enough
  have positive := held.wellFormed.capacity
  have inside := held.wellFormed.readerIndex
  rw [← held.readable] at enough
  have fills := readBytes_fills_iff took positive inside more enough taken
  constructor
  · intro coincide
    refine (fills.mp fun output room => ?_).1
    obtain ⟨bytes, filled, final, ran, -, tookAgain⟩ := coincide output room
    cases took.symm.trans tookAgain
    exact ⟨filled, _, ran⟩
  · intro narrow output room
    obtain ⟨filled, final, ran⟩ := fills.mpr ⟨narrow, rfl⟩ output room
    obtain ⟨_, again, same, rfl, -⟩ := readBytes_takes took positive inside more enough output room
    cases ran.symm.trans again
    exact ⟨taken, filled, _, ran, (congrArg Errorable.value same).symm, took⟩

/-- In a buffer that calls have led to, writes coincide, and reads exactly as long as
their last piece starts in the range of `bytesIndex`. -/
theorem bulk_coincides_iff (positive : 0 < cap) (reached : Reached cap s) :
    (∀ input, input ≠ [] → WritesCoincide s input) ∧
    ∀ count, 0 < count → count ≤ s.readableBytes →
      (ReadsCoincide s count ↔ s.lastPieceOffset count < 2 ^ 32) := by
  have held := reached.represents positive
  constructor
  · intro input more
    obtain ⟨after, each, -⟩ := writeEach_appends held input
    exact ⟨after, (writeBytes_eq_writeEach held.wellFormed.capacity more).trans each, each⟩
  · intro count more enough
    rw [held.readable] at enough
    exact readsCoincide_iff held more enough

/-- Segments of two bytes: writes and reads across them. -/
theorem bulk_coincides_small_segments : ∃ s replies,
    Transition.run step (new (fun _ _ => 0) 2) [.writeBytes [1, 2, 3], .readByte] = .ok (s, replies) ∧
      WritesCoincide s [4, 5, 6] ∧ ReadsCoincide s 2 := by
  have counts : (Transition.run step (new (fun _ _ => 0) 2) [.writeBytes [1, 2, 3], .readByte]).map
      (fun out => out.1.readableBytes) = .ok 2 := rfl
  obtain ⟨⟨s, replies⟩, ran, readable⟩ := returns_of_map counts
  have reached : Reached 2 s := ⟨_, _, _, by simp [Operation.Proper], ran⟩
  obtain ⟨writes, reads⟩ := bulk_coincides_iff (by decide) reached
  refine ⟨s, replies, ran, writes _ (by decide), (reads 2 (by decide) (Nat.le_of_eq readable.symm)).mpr ?_⟩
  exact lastPieceOffset_lt _ _ (by decide)

/-- After a write of one byte more than a segment has, the last piece of the read of
all of them is that byte, and starts behind the segment. -/
private theorem wide_reads_differ (wide : 2 ^ 32 ≤ cap) : ∃ s replies,
    Transition.run step (new (fun _ _ => 0) cap) [.writeBytes (List.replicate (cap + 1) 0)] = .ok (s, replies) ∧
      cap + 1 ≤ s.readableBytes ∧ ¬ ReadsCoincide s (cap + 1) := by
  have positive : 0 < cap := Nat.lt_of_lt_of_le (by decide) wide
  obtain ⟨written, wrote, held, index⟩ :=
    writeBytes_appends (represents_new (fun _ _ => 0) positive) (List.replicate (cap + 1) 0)
  have ran : Transition.run step (new (fun _ _ => 0) cap) [.writeBytes (List.replicate (cap + 1) 0)] =
      .ok (written, [.pushed]) := by
    simp only [Transition.run, step, wrote, ok_bind, pure_is_ok]
  have start : written.localReaderIndex = 0 := index
  have readable := held.readable
  rw [List.nil_append, List.length_replicate] at readable
  have last : written.lastPieceOffset (cap + 1) = cap := by
    rw [lastPieceOffset, start, held.capacity, Nat.zero_add, Nat.add_sub_cancel, Nat.mod_self, Nat.zero_add,
      Nat.add_sub_cancel]
  refine ⟨written, _, ran, Nat.le_of_eq readable.symm, ?_⟩
  rw [readsCoincide_iff held (Nat.succ_pos cap) (by rw [← held.readable, readable]), last, Nat.not_lt]
  exact wide

/-- A read of 2^32 + 1 bytes that goes one byte past a segment of 2^32. -/
theorem wide_read_differs_from_bytes : ∃ s replies,
    Transition.run step (new (fun _ _ => 0) (2 ^ 32)) [.writeBytes (List.replicate (2 ^ 32 + 1) 0)] =
      .ok (s, replies) ∧
      2 ^ 32 + 1 ≤ s.readableBytes ∧ ¬ ReadsCoincide s (2 ^ 32 + 1) :=
  wide_reads_differ (Nat.le_refl _)

/-! ### A write that deletes what it has written -/

/-- After `WriteBytesAndDelete` as many bytes are readable as after `WriteBytes`, bytes
written next go to the same place, and all later calls are answered alike. -/
def WritesAndDeletes (s : ByteBufferImpl) (input : List UInt8) : Prop :=
  ∃ deleted written, s.writeBytesAndDelete input = .ok deleted ∧ s.writeBytes input = .ok written ∧
    deleted.readableBytes = written.readableBytes ∧
    deleted.buffers.idxOf deleted.currentWriteBuffer = written.buffers.idxOf written.currentWriteBuffer ∧
    deleted.localWriterIndex = written.localWriterIndex ∧
    ∀ operations, (Transition.run step deleted operations).map Prod.snd =
      (Transition.run step written operations).map Prod.snd

theorem writesAndDeletes_iff (held : Represents cap bytes s) (input : List UInt8) :
    WritesAndDeletes s input ↔ ¬ (s.localWriterIndex = 0 ∧ input.length = cap) := by
  obtain ⟨written, wrote, appended⟩ := writeBytes_represents held input
  have capacity := held.capacity
  unfold WritesAndDeletes writeBytesAndDelete
  split
  · rename_i taken
    rw [capacity] at taken
    rw [if_neg held.wellFormed.nonempty]
    -- the array that is taken over is not counted
    have counted := appended.readable
    rw [List.length_append, ← held.readable, taken.2] at counted
    have positive := held.capacity_pos
    constructor
    · rintro ⟨deleted, written', ran, wrote', readable, -⟩
      cases wrote.symm.trans wrote'
      cases ran
      simp only at readable
      omega
    · exact fun otherwise => absurd taken otherwise
  · rename_i copied
    rw [capacity] at copied
    exact ⟨fun _ => copied, fun _ => ⟨written, written, wrote, wrote, rfl, rfl, rfl, fun _ => rfl⟩⟩

/-- In a buffer that calls have led to, `WriteBytesAndDelete` is a write exactly if it
copies; a counter counts its bytes exactly if there are none. -/
theorem write_and_delete_iff (positive : 0 < cap) (reached : Reached cap s) (input : List UInt8) (c : ByteCounter) :
    (WritesAndDeletes s input ↔ ¬ (s.localWriterIndex = 0 ∧ input.length = cap)) ∧
      ((c.writeBytesAndDelete input).writerIndex = (c.writeBytes input).writerIndex ↔ input = []) := by
  refine ⟨writesAndDeletes_iff (reached.represents positive) input, ?_⟩
  rw [← List.length_eq_zero_iff]
  simp only [ByteCounter.writeBytesAndDelete, ByteCounter.writeBytes]
  omega

/-- A segment that is begun already: its rest is filled. -/
theorem write_and_delete_copies : ∃ s replies,
    Transition.run step (new (fun _ _ => 0) 2) [.writeByte 1] = .ok (s, replies) ∧ WritesAndDeletes s [2, 3] := by
  have counts : (Transition.run step (new (fun _ _ => 0) 2) [.writeByte 1]).map
      (fun out => out.1.localWriterIndex) = .ok 1 := rfl
  obtain ⟨⟨s, replies⟩, ran, index⟩ := returns_of_map counts
  have reached : Reached 2 s := ⟨_, _, _, by simp [Operation.Proper], ran⟩
  refine ⟨s, replies, ran, (write_and_delete_iff (by decide) reached [2, 3] {}).1.mpr ?_⟩
  rintro ⟨start, -⟩
  exact absurd (start.symm.trans index) (by decide)

/-- In a fresh buffer an array of the size of a segment is taken over and not counted,
and no array is counted by a counter. -/
theorem write_and_delete_loses_array :
    ¬ WritesAndDeletes (new (fun _ _ => 0) 2) [1, 2] ∧
      (ByteCounter.writeBytesAndDelete {} [1, 2]).writerIndex ≠ (ByteCounter.writeBytes {} [1, 2]).writerIndex := by
  constructor
  · rw [writesAndDeletes_iff (represents_new _ (by decide)), not_not]
    exact ⟨rfl, rfl⟩
  · decide

/-! ### A read of nothing -/

/-- A read of nothing succeeds, leaves a segment and the readable bytes, and no later
calls tell the buffer after it from the one before. -/
def EmptyReadHarmless (s : ByteBufferImpl) (output : OutputArray) : Prop :=
  ∃ result filled after, s.readBytes output 0 = .ok (result, filled, after) ∧ result.isSuccess = true ∧
    after.buffers ≠ [] ∧ after.content = s.content ∧ after.readableBytes = s.readableBytes ∧
    ∀ operations, (Transition.run step after operations).map Prod.snd =
      (Transition.run step s operations).map Prod.snd

/-- After any writes and reads, a read of nothing is harmless exactly if the reader is
not at the end of the only segment. -/
theorem empty_read_harmless_iff (heap : Nat → Block UInt8) (positive : 0 < cap) (uses : Uses (new heap cap) s)
    (output : OutputArray) :
    EmptyReadHarmless s output ↔ ¬ (s.buffers.length = 1 ∧ s.localReaderIndex = s.singleCapacity) := by
  have held := uses.wellFormed (represents_new heap positive).wellFormed
  rw [← tryRefreshReaderBuffer_ok_iff held]
  constructor
  · rintro ⟨result, filled, after, ran, -⟩
    exact ⟨after, readBytes_nothing held ran⟩
  · rintro ⟨after, refresh⟩
    have kept := refreshed_represents held.represents refresh
    refine ⟨successErrorable [], output, after, readBytes_zero held refresh output, rfl, kept.wellFormed.nonempty,
      kept.content, ?_, fun operations => ((held.lags refresh).replies operations).symm⟩
    rw [kept.readable, held.length_content]

/-- Within a segment. -/
theorem empty_read_harmless_inside_segment : ∃ s,
    Uses (new (fun _ _ => 0) 2) s ∧ EmptyReadHarmless s ⟨fun _ => 0, 0⟩ := by
  have counts : (Transition.run step (new (fun _ _ => 0) 2) [.writeByte 1, .readByte]).map
      (fun out => (out.1.localReaderIndex, out.1.singleCapacity)) = .ok (1, 2) := rfl
  obtain ⟨⟨s, replies⟩, ran, counts⟩ := returns_of_map counts
  simp only [Prod.mk.injEq] at counts
  have uses : Uses (new (fun _ _ => 0) 2) s := ⟨_, replies, by simp [Operation.HasRoom], ran⟩
  refine ⟨s, uses, (empty_read_harmless_iff (fun _ _ => 0) (by decide) uses _).mpr ?_⟩
  rintro ⟨-, full⟩
  omega

/-- After a segment is written and read to its end, a read of nothing pops it. -/
theorem empty_read_pops_only_segment : ∃ s replies,
    Transition.run step (new (fun _ _ => 0) 1) [.writeByte 1, .readByte] = .ok (s, replies) ∧
      ¬ EmptyReadHarmless s ⟨fun _ => 0, 0⟩ := by
  have faults : (do
      let out ← Transition.run step (new (fun _ _ => 0) 1) [.writeByte 1, .readByte]
      let read ← out.1.readBytes ⟨fun _ => 0, 0⟩ 0
      pure read.1.isSuccess) = .error .emptyDeque := rfl
  have counts : (Transition.run step (new (fun _ _ => 0) 1) [.writeByte 1, .readByte]).map
      (fun out => out.1.readableBytes) = .ok 0 := rfl
  obtain ⟨⟨s, replies⟩, ran, -⟩ := returns_of_map counts
  refine ⟨s, replies, ran, ?_⟩
  rintro ⟨result, filled, after, read, -⟩
  simp only [ran, read, ok_bind, pure_is_ok] at faults
  cases faults

end ShipNet.ByteBufferImpl
