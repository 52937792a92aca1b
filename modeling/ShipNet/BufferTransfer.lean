import ShipNet.ReachableBuffer

/-! `WriteBytes(ByteBuffer*, size_t)` over the states of both buffers. The array that the
bytes go through has a fixed size and keeps what it held, and nobody looks whether the
read into it was served. -/
namespace ShipNet.ByteBufferImpl
open Fallible

variable {s input : ByteBufferImpl} {cap size : Nat}

/-- The oldest `size` bytes go from the one buffer to the end of the other, or none do
where there are fewer. Nothing is written past the end of the scratch array. -/
def Transfers (s : ByteBufferImpl) (scratch : Block UInt8) (input : ByteBufferImpl) (size : Nat) : Prop :=
  ∃ after used rest, s.writeBytesFrom scratch input size = .ok (after, used, rest) ∧
    (∀ index, maxPacketSize ≤ index → used index = scratch index) ∧
    if size ≤ input.readableBytes then
      Holds (s.content ++ input.content.take size) after ∧ Holds (input.content.drop size) rest
    else Holds s.content after ∧ Holds input.content rest

/-- Where the input has fewer bytes, its refusal goes unnoticed: what the scratch array
holds is written. -/
theorem writeBytesFrom_short (s : ByteBufferImpl) (scratch : Block UInt8)
    (bounded : size ≤ maxPacketSize) (short : input.readableBytes < size) :
    s.writeBytesFrom scratch input size =
      (s.writeBytes (scratch.read 0 size)).map fun after => (after, scratch, input) := by
  rw [writeBytesFrom, readBytes, if_pos short, pure_is_ok, ok_bind]
  simp only [if_neg (Nat.not_lt.mpr bounded)]
  rfl

/-- Past its own size the scratch array is not to be touched, whatever the input holds. -/
theorem writeBytesFrom_beyond (s : ByteBufferImpl) (scratch : Block UInt8) (input : ByteBufferImpl)
    (beyond : maxPacketSize < size) : ∃ fault, s.writeBytesFrom scratch input size = .error fault := by
  cases read : input.readBytes ⟨scratch, maxPacketSize⟩ size with
  | error fault => exact ⟨fault, by rw [writeBytesFrom, read, error_bind]⟩
  | ok out => exact ⟨.outOfBounds, by simp only [writeBytesFrom, read, ok_bind, if_pos beyond, throw_is_error,
      error_bind]⟩

/-- A transfer of nothing refreshes both buffers. -/
theorem writeBytesFrom_nothing (target : s.WellFormed) (scratch : Block UInt8) (source : input.WellFormed) :
    s.writeBytesFrom scratch input 0 =
      input.tryRefreshReaderBuffer.map fun rest => (s.tryRefreshWriterBuffer, scratch, rest) := by
  cases refresh : input.tryRefreshReaderBuffer with
  | error fault => simp only [writeBytesFrom, readBytes, if_neg (Nat.not_lt_zero _), refresh, error_bind, Except.map]
  | ok rest =>
    have read := readBytes_zero source refresh ⟨scratch, maxPacketSize⟩
    simp only [writeBytesFrom, read, ok_bind, if_neg (Nat.not_lt_zero _), Block.read_zero,
      writeBytes_nothing target.represents, pure_is_ok, Except.map]

theorem transfers_nothing_iff (target : s.WellFormed) (scratch : Block UInt8) (source : input.WellFormed) :
    Transfers s scratch input 0 ↔ ¬ (input.buffers.length = 1 ∧ input.localReaderIndex = input.singleCapacity) := by
  rw [← tryRefreshReaderBuffer_ok_iff source, Transfers, writeBytesFrom_nothing target scratch source]
  constructor
  · rintro ⟨after, used, rest, ran, -⟩
    obtain ⟨refreshed, refresh, -⟩ := returns_of_map ran
    exact ⟨refreshed, refresh⟩
  · rintro ⟨rest, refresh⟩
    refine ⟨s.tryRefreshWriterBuffer, scratch, rest, by rw [refresh]; rfl, fun _ _ => rfl, ?_⟩
    rw [if_pos (Nat.zero_le _), List.take_zero, List.append_nil, List.drop_zero]
    exact ⟨(tryRefreshWriterBuffer_represents target.represents).1.holds,
      (refreshed_represents source.represents refresh).holds⟩

theorem transfers_some_iff (target : s.WellFormed) (scratch : Block UInt8) (source : input.WellFormed)
    (some : 1 ≤ size) : Transfers s scratch input size ↔ size ≤ input.readableBytes ∧ size ≤ maxPacketSize := by
  constructor
  · rintro ⟨after, used, rest, ran, -, moved⟩
    have bounded : size ≤ maxPacketSize := by
      by_contra beyond
      obtain ⟨fault, failed⟩ := writeBytesFrom_beyond s scratch input (Nat.lt_of_not_le beyond)
      rw [failed] at ran
      cases ran
    refine ⟨?_, bounded⟩
    by_contra short
    -- what is written then is counted
    obtain ⟨written, wrote, appended⟩ := writeBytes_represents target.represents (scratch.read 0 size)
    rw [writeBytesFrom_short s scratch bounded (Nat.lt_of_not_le short), wrote] at ran
    cases ran
    rw [if_neg short] at moved
    have more := congrArg List.length (moved.1.content.symm.trans appended.content)
    rw [List.length_append, Block.length_read] at more
    omega
  · rintro ⟨enough, bounded⟩
    obtain ⟨out, ran, appended, remaining, behind⟩ := writeBytesFrom_represents target.represents scratch
      source.represents some bounded (by rw [source.length_content]; exact enough)
    refine ⟨out.1, out.2.1, out.2.2, ran, fun index past => behind index (Nat.le_trans bounded past), ?_⟩
    rw [if_pos enough]
    exact ⟨appended.holds, remaining.holds⟩

/-- Between any two buffers, a transfer of some bytes is one exactly if they are there
and the scratch array holds them. `WriteDirect`, which transfers all that there are,
does so if the scratch array holds them and the reader is not at the end of the only
segment. -/
theorem transfers_iff {sourceCap : Nat} (targetCapacity : 0 < cap) (sourceCapacity : 0 < sourceCap)
    (target : Reachable cap s) (source : Reachable sourceCap input) (scratch : Block UInt8) :
    (∀ size, 1 ≤ size → (Transfers s scratch input size ↔ size ≤ input.readableBytes ∧ size ≤ maxPacketSize)) ∧
      (Transfers s scratch input input.readableBytes ↔ input.readableBytes ≤ maxPacketSize ∧
        ¬ (input.buffers.length = 1 ∧ input.localReaderIndex = sourceCap)) := by
  have held := (target.represents targetCapacity).wellFormed
  have origin := source.represents sourceCapacity
  refine ⟨fun size some => transfers_some_iff held scratch origin.wellFormed some, ?_⟩
  rcases Nat.eq_zero_or_pos input.readableBytes with empty | some
  · rw [empty, transfers_nothing_iff held scratch origin.wellFormed, origin.capacity]
    exact (and_iff_right (Nat.zero_le _)).symm
  · rw [transfers_some_iff held scratch origin.wellFormed some, and_iff_right (Nat.le_refl _), iff_self_and]
    rintro - ⟨single, ended⟩
    have balance := origin.wellFormed.balance
    have writer := origin.wellFormed.writerIndex
    rw [single, Nat.sub_self, Nat.zero_mul] at balance
    rw [origin.capacity] at writer
    omega

/-- Three bytes out of segments of two, by way of an array that holds others. -/
theorem transfers_small_segments : ∃ input reply,
    (new (fun _ _ => 0) 2).step (.writeBytes [1, 2, 3]) = .ok (input, reply) ∧
      Transfers (new (fun _ _ => 0) 1) (fun _ => 7) input 3 ∧
      Transfers (new (fun _ _ => 0) 1) (fun _ => 7) input input.readableBytes := by
  have counts : ((new (fun _ _ => 0) 2).step (.writeBytes [1, 2, 3])).map
      (fun out => (out.1.readableBytes, out.1.buffers.length)) = .ok (3, 2) := rfl
  obtain ⟨⟨input, reply⟩, ran, counts⟩ := returns_of_map counts
  simp only [Prod.mk.injEq] at counts
  have target : Reachable 1 (new (fun _ _ => 0) 1) := .new _
  have source : Reachable 2 input := .called (.new _) (by trivial) ran
  obtain ⟨some, all⟩ := transfers_iff (by decide) (by decide) target source fun _ => 7
  refine ⟨input, reply, ran, (some 3 (by decide)).mpr ⟨?_, by decide⟩, all.mpr ⟨?_, ?_⟩⟩
  · exact Nat.le_of_eq counts.1.symm
  · exact counts.1 ▸ (by decide)
  · rintro ⟨single, -⟩
    omega

/-- From a buffer that holds nothing, a byte of the array is written. -/
theorem transfer_writes_what_array_held :
    (writeBytesFrom (new (fun _ _ => 0) 4) (fun _ => 7) (new (fun _ _ => 0) 4) 1).map
        (fun out => (out.1.content, out.2.2.content)) = .ok ([7], []) ∧
      ¬ Transfers (new (fun _ _ => 0) 4) (fun _ => 7) (new (fun _ _ => 0) 4) 1 := by
  have fresh := (represents_new (fun _ _ => 0) (show 0 < 4 by decide)).wellFormed
  refine ⟨rfl, ?_⟩
  rw [transfers_some_iff fresh _ fresh (Nat.le_refl _)]
  rintro ⟨enough, -⟩
  exact Nat.not_succ_le_zero 0 enough

end ShipNet.ByteBufferImpl
