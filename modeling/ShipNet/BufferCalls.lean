import ShipNet.ReachedBuffer

/-! What a pipe does to a buffer that it is handed: some calls. A buffer that few bytes
are written to stays in its first segment, and resetting its indices empties it. -/
namespace ShipNet.ByteBufferImpl
open Fallible

variable {before after s : ByteBufferImpl} {cap : Nat} {bytes old : List UInt8}

def Operation.IsRead : Operation → Prop
  | readByte | readBytes _ _ => True
  | writeByte _ | writeBytes _ => False

def Operation.IsWrite : Operation → Prop
  | writeByte _ | writeBytes _ => True
  | readByte | readBytes _ _ => False

/-- A read brings an array with room for it, and may ask for nothing. -/
def Operation.HasRoom : Operation → Prop
  | readBytes output size => size ≤ output.size
  | writeByte _ | writeBytes _ | readByte => True

/-- Calls lead from the one buffer to the other. -/
def Uses (before after : ByteBufferImpl) : Prop :=
  ∃ operations replies, (∀ operation ∈ operations, Operation.HasRoom operation) ∧
    Transition.run step before operations = .ok (after, replies)

/-- Reads lead from the one buffer to the other. -/
def Reads (before after : ByteBufferImpl) : Prop :=
  ∃ operations replies, (∀ operation ∈ operations, Operation.HasRoom operation ∧ operation.IsRead) ∧
    Transition.run step before operations = .ok (after, replies)

/-- Writes of these bytes lead from the one buffer to the other. -/
def Writes (bytes : List UInt8) (before after : ByteBufferImpl) : Prop :=
  ∃ operations replies, (∀ operation ∈ operations, Operation.IsWrite operation) ∧
    operations.flatMap (fun operation => operation.request.pushes) = bytes ∧
    Transition.run step before operations = .ok (after, replies)

/-- The buffer is a well-formed one that holds these bytes. -/
structure Holds (bytes : List UInt8) (s : ByteBufferImpl) : Prop where
  wellFormed : s.WellFormed
  content : s.content = bytes

theorem Holds.represents (held : Holds bytes s) : Represents s.singleCapacity bytes s :=
  ⟨held.wellFormed, rfl, held.content⟩

theorem Represents.holds (held : Represents cap bytes s) : Holds bytes s :=
  ⟨held.wellFormed, held.content⟩

theorem WellFormed.holds (held : s.WellFormed) : Holds s.content s :=
  ⟨held, rfl⟩

/-! ### Calls keep a buffer well formed -/

/-- Where the reader has come to the end of a segment, a read of nothing pops it. -/
theorem readBytes_nothing (held : s.WellFormed) {output : OutputArray}
    {out : Errorable (List UInt8) × OutputArray × ByteBufferImpl} (ran : s.readBytes output 0 = .ok out) :
    s.tryRefreshReaderBuffer = .ok out.2.2 := by
  have refreshes := ran
  rw [readBytes, if_neg (Nat.not_lt_zero _)] at refreshes
  obtain ⟨next, refresh, -⟩ := returns_of_bind refreshes
  rw [readBytes_zero held refresh output] at ran
  cases ran
  exact refresh

theorem step_ok_represents (held : Represents cap bytes s) {operation : Operation} (room : operation.HasRoom)
    {reply : Fifo.Reply UInt8} (stepped : s.step operation = .ok (after, reply)) :
    ∃ bytes, Represents cap bytes after := by
  have proper (asks : operation.Proper) : ∃ bytes, Represents cap bytes after := by
    obtain ⟨out, same, kept⟩ := step_holds held asks
    cases stepped.symm.trans same
    exact ⟨_, kept⟩
  cases operation with
  | writeByte input => exact proper trivial
  | writeBytes input => exact proper trivial
  | readByte => exact proper trivial
  | readBytes output size =>
    cases size with
    | succ size => exact proper ⟨Nat.succ_pos size, room⟩
    | zero =>
      obtain ⟨⟨result, filled, next⟩, read, answered⟩ := returns_of_bind stepped
      cases answered
      exact ⟨bytes, refreshed_represents held (readBytes_nothing held.wellFormed read)⟩

theorem Uses.wellFormed (uses : Uses before after) (held : before.WellFormed) : after.WellFormed := by
  obtain ⟨operations, replies, room, ran⟩ := uses
  refine Transition.run_ok_keeps WellFormed ?_ held room ran
  intro s operation next reply held room stepped
  obtain ⟨bytes, kept⟩ := step_ok_represents held.represents room stepped
  exact kept.wellFormed

theorem Reads.refl (buffer : ByteBufferImpl) : Reads buffer buffer :=
  ⟨[], [], by simp, rfl⟩

theorem Reads.trans {final : ByteBufferImpl} (first : Reads before after) (later : Reads after final) :
    Reads before final := by
  obtain ⟨operations, replies, kind, ran⟩ := first
  obtain ⟨further, answers, kindToo, rest⟩ := later
  exact ⟨operations ++ further, replies ++ answers, List.forall_mem_append.mpr ⟨kind, kindToo⟩,
    Transition.run_append ran rest⟩

theorem Reads.uses (reads : Reads before after) : Uses before after := by
  obtain ⟨operations, replies, kind, ran⟩ := reads
  exact ⟨operations, replies, fun operation member => (kind operation member).1, ran⟩

theorem Writes.uses (writes : Writes bytes before after) : Uses before after := by
  obtain ⟨operations, replies, kind, -, ran⟩ := writes
  refine ⟨operations, replies, ?_, ran⟩
  intro operation member
  have isWrite := kind operation member
  cases operation with
  | writeByte input => trivial
  | writeBytes input => trivial
  | readByte => exact isWrite.elim
  | readBytes output size => exact isWrite.elim

/-! ### Writes append and leave the reader's index alone -/

private theorem write_appends (held : Represents cap bytes s) {operation : Operation} (isWrite : operation.IsWrite) :
    Returns (s.step operation) fun out =>
      Represents cap (bytes ++ operation.request.pushes) out.1 ∧ out.1.localReaderIndex = s.localReaderIndex := by
  cases operation with
  | writeByte input => exact (writeByte_appends held input).bind fun after kept => (returns_ok _ _).mpr kept
  | writeBytes input => exact (writeBytes_appends held input).bind fun after kept => (returns_ok _ _).mpr kept
  | readByte => exact isWrite.elim
  | readBytes output size => exact isWrite.elim

theorem Writes.appends (writes : Writes bytes before after) (held : Represents cap old before) :
    Represents cap (old ++ bytes) after ∧ after.localReaderIndex = before.localReaderIndex := by
  obtain ⟨operations, replies, kind, rfl, ran⟩ := writes
  obtain ⟨out, same, kept⟩ := Transition.run_follows (fun bytes operation => bytes ++ operation.request.pushes)
    (fun s bytes => Represents cap bytes s ∧ s.localReaderIndex = before.localReaderIndex) old
    (fun s bytes operation kept (isWrite : operation.IsWrite) => (write_appends kept.1 isWrite).mono
      fun out next => ⟨next.1, next.2.trans kept.2⟩)
    ⟨held, rfl⟩ (Transition.meets_of_forall fun operation member _ => kind operation member)
  rw [List.foldl_append_eq_append, ← List.flatMap_def] at kept
  cases ran.symm.trans same
  exact kept

/-! ### A buffer in its first segment -/

/-- It has one segment, and room left in it. -/
structure OneSegment (s : ByteBufferImpl) : Prop where
  wellFormed : s.WellFormed
  single : s.buffers.length = 1
  room : s.localWriterIndex < s.singleCapacity

/-- Fewer bytes than a segment holds, behind a reader that has read none, leave no
room for a second one. -/
theorem Represents.oneSegment (held : Represents cap bytes s) (unread : s.localReaderIndex = 0)
    (few : bytes.length < cap) : s.OneSegment := by
  have readable := held.readable
  have capacity := held.capacity
  rcases held.wellFormed.one_segment_or_more with ⟨single, balance⟩ | ⟨-, balance⟩
  · exact ⟨held.wellFormed, single, by omega⟩
  · omega

/-- The thread's `connectionWriteBuffer` between two packets: whatever it holds, its
indices can be reset. -/
structure Resettable (s : ByteBufferImpl) : Prop where
  wellFormed : s.WellFormed
  single : s.buffers.length = 1
  capacity : s.singleCapacity = maxPacketSize

theorem resettable_new (heap : Nat → Block UInt8) : Resettable (new heap maxPacketSize) :=
  ⟨(represents_new heap (by decide)).wellFormed, rfl, rfl⟩

theorem Resettable.reset (held : s.Resettable) :
    Represents maxPacketSize [] s.resetReaderIndex.resetWriterIndex where
  wellFormed :=
    { held.wellFormed with
      readerIndex := Nat.zero_le _
      writerIndex := Nat.zero_le _
      balance := by simp [resetReaderIndex, resetWriterIndex, held.single] }
  capacity := held.capacity
  content := by simp [ByteBufferImpl.content, resetReaderIndex, resetWriterIndex]

/-- What was written since the indices were reset is what there is to read. -/
theorem Writes.after_reset (writes : Writes bytes before.resetReaderIndex.resetWriterIndex after)
    (held : before.Resettable) (few : bytes.length < maxPacketSize) :
    Represents maxPacketSize bytes after ∧ after.OneSegment := by
  obtain ⟨kept, sameReader⟩ := writes.appends held.reset
  rw [List.nil_append] at kept
  exact ⟨kept, kept.oneSegment sameReader few⟩

theorem OneSegment.resettable (held : s.OneSegment) (capacity : s.singleCapacity = maxPacketSize) : s.Resettable :=
  ⟨held.wellFormed, held.single, capacity⟩

theorem OneSegment.balance (held : s.OneSegment) :
    s.readableBytes + s.localReaderIndex = s.localWriterIndex := by
  have balance := held.wellFormed.balance
  rwa [held.single, Nat.sub_self, Nat.zero_mul, Nat.zero_add] at balance

/-- The room left in the segment keeps every read inside it. -/
private theorem OneSegment.readBytes_shape (held : s.OneSegment) (output : OutputArray) (size : Nat)
    (room : size ≤ output.size) (enough : size ≤ s.readableBytes) :
    Returns (s.readBytes output size) fun out => out.2.2 = { s with
      localReaderIndex := s.localReaderIndex + size
      readableBytes := s.readableBytes - size } := by
  have balance := held.balance
  have left := held.room
  have within : ¬ s.localReaderIndex ≥ s.singleCapacity := by omega
  have whole : ¬ s.localReaderIndex + size > s.singleCapacity := by omega
  have fetched := fetch_represents held.wellFormed.represents size (by omega)
    (by rw [held.wellFormed.length_content]; exact enough)
  have short : (s.content.take size).length ≤ size := List.length_take_le _ _
  have stored : output.store 0 (s.content.take size) =
      .ok { output with cells := output.cells.write 0 (s.content.take size) } := by
    rw [OutputArray.store, if_neg (by omega), pure_is_ok]
  simp only [readBytes, if_neg (Nat.not_lt.mpr enough), tryRefreshReaderBuffer, if_neg within, pure_is_ok, ok_bind,
    Reading.crossSegments, if_neg whole, fetched, UInt32.toNat_zero, stored, returns_ok]

private theorem OneSegment.readByte_shape (held : s.OneSegment) (enough : 1 ≤ s.readableBytes) :
    Returns s.readByte fun out => out.2 = { s with
      localReaderIndex := s.localReaderIndex + 1
      readableBytes := s.readableBytes - 1 } := by
  have balance := held.balance
  have left := held.room
  have within : ¬ s.localReaderIndex ≥ s.singleCapacity := by omega
  have fetched := fetch_represents held.wellFormed.represents 1 (by omega)
    (by rw [held.wellFormed.length_content]; exact enough)
  simp only [readByte, if_neg (Nat.not_lt.mpr enough), readByteUnsafe, tryRefreshReaderBuffer, if_neg within,
    pure_is_ok, ok_bind, fetched, returns_ok]

private theorem OneSegment.advance (held : s.OneSegment) (count : Nat) (enough : count ≤ s.readableBytes) :
    OneSegment { s with
      localReaderIndex := s.localReaderIndex + count
      readableBytes := s.readableBytes - count } := by
  have balance := held.balance
  have left := held.room
  have moved := advance_represents held.wellFormed.represents count (by omega)
    (by rw [held.wellFormed.length_content]; exact enough)
  exact ⟨moved.wellFormed, held.single, held.room⟩

private theorem OneSegment.read (held : s.OneSegment) {operation : Operation} (room : operation.HasRoom)
    (isRead : operation.IsRead) :
    Returns (s.step operation) fun out => out.1.OneSegment ∧ out.1.singleCapacity = s.singleCapacity := by
  cases operation with
  | writeByte input => exact isRead.elim
  | writeBytes input => exact isRead.elim
  | readByte =>
    by_cases enough : 1 ≤ s.readableBytes
    · refine (held.readByte_shape enough).bind ?_
      rintro ⟨result, after⟩ rfl
      exact (returns_ok _ _).mpr ⟨held.advance 1 enough, rfl⟩
    · simp only [step, readByte, if_pos (Nat.lt_of_not_le enough), pure_is_ok, ok_bind, returns_ok]
      exact ⟨held, trivial⟩
  | readBytes output size =>
    by_cases enough : size ≤ s.readableBytes
    · refine (held.readBytes_shape output size room enough).bind ?_
      rintro ⟨result, filled, after⟩ rfl
      exact (returns_ok _ _).mpr ⟨held.advance size enough, rfl⟩
    · simp only [step, readBytes, if_pos (Nat.lt_of_not_le enough), pure_is_ok, ok_bind, returns_ok]
      exact ⟨held, trivial⟩

/-- Reads do not lead out of the first segment. -/
theorem Reads.oneSegment (reads : Reads before after) (held : before.OneSegment) :
    after.OneSegment ∧ after.singleCapacity = before.singleCapacity := by
  obtain ⟨operations, replies, kind, ran⟩ := reads
  obtain ⟨out, same, kept⟩ := Transition.run_keeps
    (fun s : ByteBufferImpl => s.OneSegment ∧ s.singleCapacity = before.singleCapacity)
    (fun s operation kept (allowed : operation.HasRoom ∧ operation.IsRead) =>
      (kept.1.read allowed.1 allowed.2).mono fun out next => ⟨next.1, next.2.trans kept.2⟩)
    ⟨held, rfl⟩ (Transition.meets_of_forall fun operation member _ => kind operation member)
  cases ran.symm.trans same
  exact kept

/-! ### A transfer is a write and a read -/

theorem writeBytesFrom_transfers {input : ByteBufferImpl} {inputCap size : Nat} {source : List UInt8}
    (held : Represents cap bytes s) (scratch : Block UInt8) (origin : Represents inputCap source input)
    (positive : 0 < size) (bounded : size ≤ maxPacketSize) (enough : size ≤ source.length) :
    Returns (s.writeBytesFrom scratch input size) fun out =>
      Represents cap (bytes ++ source.take size) out.1 ∧ Represents inputCap (source.drop size) out.2.2 ∧
        Reads input out.2.2 := by
  obtain ⟨out, transferred, appended, remaining, -⟩ :=
    writeBytesFrom_represents held scratch origin positive bounded enough
  refine ⟨out, transferred, appended, remaining, [.readBytes ⟨scratch, maxPacketSize⟩ size], ?_⟩
  rw [writeBytesFrom] at transferred
  obtain ⟨⟨result, filled, after⟩, read, written⟩ := returns_of_bind transferred
  simp only [if_neg (Nat.not_lt.mpr bounded)] at written
  obtain ⟨next, -, rfl⟩ := returns_of_map written
  refine ⟨[reply id result], ?_, ?_⟩
  · intro operation member
    cases List.mem_singleton.mp member
    exact ⟨bounded, trivial⟩
  · simp only [Transition.run, step, read, ok_bind, pure_is_ok]

end ShipNet.ByteBufferImpl
