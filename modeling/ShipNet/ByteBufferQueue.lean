import ShipNet.ByteBufferInvariant
import ShipNet.Bytewise
import ShipNet.Fifo

/-! `ByteBufferImpl` is a first-in first-out byte queue: each operation does to
the readable bytes what the queue operation does, over any run. -/
namespace ShipNet.ByteBufferImpl
open Fallible

variable {s : ByteBufferImpl} {cap : Nat} {bytes : List UInt8}

/-! ### Writes -/

theorem tryRefreshWriterBuffer_represents (held : Represents cap bytes s) :
    Represents cap bytes s.tryRefreshWriterBuffer ∧ s.tryRefreshWriterBuffer.localWriterIndex < cap ∧
      s.tryRefreshWriterBuffer.localReaderIndex = s.localReaderIndex := by
  have positive := held.capacity_pos
  have capacity := held.capacity
  have writerIndex := held.wellFormed.writerIndex
  unfold tryRefreshWriterBuffer
  split
  · exact ⟨appendBuffer_represents held (by omega), positive, rfl⟩
  · exact ⟨held, by omega, rfl⟩

/-- A byte is appended, and the reader's index left alone. -/
theorem writeByte_appends (held : Represents cap bytes s) (input : UInt8) :
    Returns (s.writeByte input) fun after =>
      Represents cap (bytes ++ [input]) after ∧ after.localReaderIndex = s.localReaderIndex := by
  obtain ⟨refreshed, room, sameReader⟩ := tryRefreshWriterBuffer_represents held
  refine (store_represents refreshed [input] (by simp only [List.length_singleton]; omega)).bind ?_
  rintro after ⟨shape, appended⟩
  refine (returns_ok _ _).mpr ⟨by simpa using appended, ?_⟩
  rw [shape]
  exact sameReader

theorem writeByte_represents (held : Represents cap bytes s) (input : UInt8) :
    Returns (s.writeByte input) (Represents cap (bytes ++ [input])) :=
  (writeByte_appends held input).mono fun _ after => after.1

theorem writeEach_appends (held : Represents cap bytes s) (input : List UInt8) :
    Returns (s.writeEach input) fun after =>
      Represents cap (bytes ++ input) after ∧ after.localReaderIndex = s.localReaderIndex := by
  induction input generalizing s bytes with
  | nil => exact (returns_ok _ _).mpr ⟨by rwa [List.append_nil], rfl⟩
  | cons first later ih =>
    refine (writeByte_appends held first).bind ?_
    rintro mid ⟨appended, sameReader⟩
    refine (ih appended).mono ?_
    rintro after ⟨whole, sameLater⟩
    exact ⟨by simpa using whole, sameLater.trans sameReader⟩

theorem writeBytes_nothing (held : Represents cap bytes s) : s.writeBytes [] = .ok s.tryRefreshWriterBuffer := by
  obtain ⟨refreshed, -, -⟩ := tryRefreshWriterBuffer_represents held
  have member := List.mem_of_getLast? refreshed.wellFormed.writer
  exact writeBytes_none (refreshed.wellFormed.live _ member) refreshed.wellFormed.writerIndex

/-- A write of any size appends its bytes, and leaves the reader's index alone. -/
theorem writeBytes_appends (held : Represents cap bytes s) (input : List UInt8) :
    Returns (s.writeBytes input) fun after =>
      Represents cap (bytes ++ input) after ∧ after.localReaderIndex = s.localReaderIndex := by
  by_cases empty : input = []
  · obtain ⟨refreshed, -, sameReader⟩ := tryRefreshWriterBuffer_represents held
    rw [empty, List.append_nil, writeBytes_nothing held, returns_ok]
    exact ⟨refreshed, sameReader⟩
  · rw [writeBytes_eq_writeEach held.wellFormed.capacity empty]
    exact writeEach_appends held input

theorem writeBytes_represents (held : Represents cap bytes s) (input : List UInt8) :
    Returns (s.writeBytes input) (Represents cap (bytes ++ input)) :=
  (writeBytes_appends held input).mono fun _ after => after.1

/-! ### Reads -/

theorem tryRefreshReaderBuffer_represents (held : Represents cap bytes s) (nonempty : bytes ≠ []) :
    Returns s.tryRefreshReaderBuffer fun after =>
      Represents cap bytes after ∧ after.localReaderIndex < cap ∧
        (after.localReaderIndex = s.localReaderIndex ∨
          after.localReaderIndex = 0 ∧ s.localReaderIndex = cap) := by
  have positive := held.capacity_pos
  have capacity := held.capacity
  have readerIndex := held.wellFormed.readerIndex
  unfold tryRefreshReaderBuffer
  split
  · refine (popBuffer_represents held 0 s.localReaderIndex (by omega)
      (Nat.zero_le _) (another_segment held (by omega) (List.length_pos_iff.mpr nonempty))).mono ?_
    rintro after ⟨held, index, -⟩
    exact ⟨held, by omega, .inr ⟨index, by omega⟩⟩
  · exact (returns_ok _ _).mpr ⟨held, by omega, .inl rfl⟩

/-- A refresh that succeeds leaves the bytes. -/
theorem refreshed_represents {after : ByteBufferImpl} (held : Represents cap bytes s)
    (refresh : s.tryRefreshReaderBuffer = .ok after) : Represents cap bytes after := by
  by_cases full : s.singleCapacity ≤ s.localReaderIndex
  · rw [tryRefreshReaderBuffer_full full] at refresh
    obtain ⟨-, -, fewer, nonempty⟩ := popBuffer_shape refresh
    have capacity := held.capacity
    have readerIndex := held.wellFormed.readerIndex
    obtain ⟨popped, same, kept, -⟩ := popBuffer_represents held 0 s.localReaderIndex (by omega) (Nat.zero_le _)
      (by omega)
    cases refresh.symm.trans same
    exact kept
  · rw [tryRefreshReaderBuffer_room (Nat.lt_of_not_le full)] at refresh
    cases refresh
    exact held

/-- Only the end of the only segment leaves nothing to go on with. -/
theorem tryRefreshReaderBuffer_ok_iff (held : s.WellFormed) :
    (∃ after, s.tryRefreshReaderBuffer = .ok after) ↔
      ¬ (s.buffers.length = 1 ∧ s.localReaderIndex = s.singleCapacity) := by
  have index := held.readerIndex
  by_cases full : s.singleCapacity ≤ s.localReaderIndex
  · rw [tryRefreshReaderBuffer_full full]
    constructor
    · rintro ⟨after, popped⟩ ⟨single, -⟩
      obtain ⟨-, -, fewer, nonempty⟩ := popBuffer_shape popped
      omega
    · intro notLast
      have positive := held.length_pos
      obtain ⟨after, popped, -⟩ := popBuffer_represents held.represents 0 s.localReaderIndex
        (show s.localReaderIndex + 0 = s.singleCapacity by omega) (Nat.zero_le _) (by omega)
      exact ⟨after, popped⟩
  · refine iff_of_true ⟨s, tryRefreshReaderBuffer_room (Nat.lt_of_not_le full)⟩ ?_
    rintro ⟨-, ended⟩
    omega

theorem readBytes_zero {after : ByteBufferImpl} (held : s.WellFormed) (refresh : s.tryRefreshReaderBuffer = .ok after)
    (output : OutputArray) : s.readBytes output 0 = .ok (successErrorable [], output, after) := by
  have kept := (refreshed_represents held.represents refresh).wellFormed
  exact readBytes_none refresh (kept.live _ (List.mem_of_mem_head? kept.reader)) kept.readerIndex output

/-- Reading without a check takes the oldest byte, where there is one. -/
theorem readByteUnsafe_represents {oldest : UInt8} {later : List UInt8}
    (held : Represents cap (oldest :: later) s) :
    Returns s.readByteUnsafe fun out => out.1 = oldest ∧ Represents cap later out.2 := by
  refine (tryRefreshReaderBuffer_represents held (by simp)).bind ?_
  rintro after ⟨refreshed, inside, -⟩
  rw [fetch_represents refreshed 1 (by omega) (by simp)]
  simpa using advance_represents refreshed 1 (by omega) (by simp)

/-- `ReadByte` takes the oldest byte, or is refused and changes nothing. -/
theorem readByte_represents {oldest : UInt8} {later : List UInt8}
    (held : Represents cap (oldest :: later) s) :
    Returns s.readByte fun out => out.1 = successErrorable oldest ∧ Represents cap later out.2 := by
  have readable : ¬ s.readableBytes < 1 := by
    rw [held.readable]
    simp
  simp only [readByte, if_neg readable]
  refine (readByteUnsafe_represents held).bind ?_
  rintro ⟨byte, after⟩ ⟨rfl, remaining⟩
  exact (returns_ok _ _).mpr ⟨rfl, remaining⟩

theorem readByte_refused (held : Represents cap [] s) :
    s.readByte = .ok (incompleteByteErrorable 0, s) := by
  have empty : s.readableBytes = 0 := held.readable
  simp only [readByte, empty, Nat.zero_lt_one, if_true, pure_is_ok]
  rfl

/-- No piece of a short read starts past the range of `bytesIndex`. -/
theorem lastPieceOffset_lt (s : ByteBufferImpl) (size : Nat) (short : size ≤ 2 ^ 32) :
    s.lastPieceOffset size < 2 ^ 32 := by
  unfold lastPieceOffset
  omega

theorem takeBytes_represents (held : Represents cap bytes s) {count : Nat} (enough : count ≤ bytes.length) :
    Returns (s.takeBytes count) fun out => out.1 = bytes.take count ∧ Represents cap (bytes.drop count) out.2 := by
  induction count generalizing bytes s with
  | zero => exact (returns_ok _ _).mpr ⟨rfl, held⟩
  | succ count ih =>
    cases bytes with
    | nil => exact absurd enough (Nat.not_succ_le_zero count)
    | cons byte bytes =>
      refine (readByteUnsafe_represents held).bind ?_
      rintro ⟨read, mid⟩ ⟨rfl, remaining⟩
      refine (ih remaining (Nat.le_of_succ_le_succ enough)).bind ?_
      rintro ⟨others, after⟩ ⟨rfl, left⟩
      exact (returns_ok _ _).mpr ⟨rfl, left⟩

/-- A read of more bytes than are readable is refused and changes nothing. -/
theorem readBytes_refused (held : Represents cap bytes s) (output : OutputArray) {size : Nat}
    (short : bytes.length < size) :
    s.readBytes output size =
      .ok (incompleteByteArrayErrorable (.ofNat bytes.length), output, s) := by
  rw [← held.readable] at short ⊢
  simp only [readBytes, if_pos short, pure_is_ok]

/-- A read that the queue can serve takes the oldest bytes, as long as no piece
of it starts past the range of `bytesIndex`. -/
theorem readBytes_represents (held : Represents cap bytes s) (output : OutputArray) {size : Nat}
    (positive : 0 < size) (room : size ≤ output.size) (enough : size ≤ bytes.length)
    (narrow : s.lastPieceOffset size < 2 ^ 32) :
    Returns (s.readBytes output size) fun out =>
      out.1 = successErrorable (bytes.take size) ∧
        out.2.1.size = output.size ∧ out.2.1.cells.read 0 size = bytes.take size ∧
        (∀ index, size ≤ index → out.2.1.cells index = output.cells index) ∧
        Represents cap (bytes.drop size) out.2.2 := by
  obtain ⟨⟨taken, after⟩, took, rfl, remaining⟩ := takeBytes_represents held enough
  have length := takeBytes_length took
  refine (readBytes_takes took held.wellFormed.capacity held.wellFormed.readerIndex positive
    (by rw [held.readable]; exact enough) output room).mono ?_
  rintro ⟨result, filled, final⟩ ⟨same, rfl, sameSize, copied, -⟩
  simp only at same
  subst same
  have cells : filled.cells = output.cells.write 0 (bytes.take size) := copied narrow
  have read : filled.cells.read 0 size = bytes.take size := by
    have whole := Block.read_write_self output.cells 0 (bytes.take size)
    rwa [length, ← cells] at whole
  refine ⟨congrArg successErrorable read, sameSize, read, ?_, remaining⟩
  intro index past
  simp only [cells]
  exact Block.write_past _ (by rw [length, Nat.zero_add]; exact past)

/-- A transfer between buffers moves the oldest bytes of the one behind those of the
other, and leaves the scratch array behind the bytes moved as it was. -/
theorem writeBytesFrom_represents {input : ByteBufferImpl} {inputCap size : Nat} {source : List UInt8}
    (held : Represents cap bytes s) (scratch : Block UInt8) (origin : Represents inputCap source input)
    (positive : 0 < size) (bounded : size ≤ maxPacketSize) (enough : size ≤ source.length) :
    Returns (s.writeBytesFrom scratch input size) fun out =>
      Represents cap (bytes ++ source.take size) out.1 ∧ Represents inputCap (source.drop size) out.2.2 ∧
        ∀ index, size ≤ index → out.2.1 index = scratch index := by
  have narrow := input.lastPieceOffset_lt size (Nat.le_trans bounded (by decide))
  refine (readBytes_represents origin ⟨scratch, maxPacketSize⟩ positive bounded enough narrow).bind ?_
  rintro ⟨result, filled, after⟩ ⟨-, -, copied, behind, remaining⟩
  simp only at copied behind remaining
  simp only [if_neg (Nat.not_lt.mpr bounded), copied]
  refine (writeBytes_represents held (source.take size)).bind fun written appended => ?_
  exact (returns_ok _ _).mpr ⟨appended, remaining, behind⟩

/-! ### Runs -/

/-- A call on the buffer. A read brings the array it fills. -/
inductive Operation where
  | writeByte (input : UInt8)
  | writeBytes (input : List UInt8)
  | readByte
  | readBytes (output : OutputArray) (size : Nat)

/-- What the queue is asked for by the call. -/
def Operation.request : Operation → Fifo.Request UInt8
  | writeByte input => .push [input]
  | writeBytes input => .push input
  | readByte => .pull 1
  | readBytes _ size => .pull size

/-- The answer of a read: its bytes on success. -/
def reply {T : Type} (delivered : T → List UInt8) (result : Errorable T) : Fifo.Reply UInt8 :=
  if result.isSuccess then .pulled (delivered result.value) else .refused

def step (s : ByteBufferImpl) : Operation → Exec (ByteBufferImpl × Fifo.Reply UInt8)
  | .writeByte input => do
    let s ← s.writeByte input
    pure (s, .pushed)
  | .writeBytes input => do
    let s ← s.writeBytes input
    pure (s, .pushed)
  | .readByte => do
    let (result, s) ← s.readByte
    pure (s, reply (fun byte => [byte]) result)
  | .readBytes output size => do
    let (result, _, s) ← s.readBytes output size
    pure (s, reply id result)

/-- A read asks for something and brings an array with room for it. -/
def Operation.Proper : Operation → Prop
  | readBytes output size => 0 < size ∧ size ≤ output.size
  | writeByte _ | writeBytes _ | readByte => True

/-- No piece of a read that is served starts past the range of `bytesIndex`. -/
def Operation.Narrow (s : ByteBufferImpl) : Operation → Prop
  | readBytes _ size => size ≤ s.readableBytes → s.lastPieceOffset size < 2 ^ 32
  | writeByte _ | writeBytes _ | readByte => True

/-- One call does to the readable bytes what the queue does, and one that is
refused changes nothing at all. -/
theorem step_represents (held : Represents cap bytes s) {operation : Operation}
    (proper : operation.Proper) (narrow : operation.Narrow s) :
    Returns (s.step operation) fun out =>
      Represents cap (Fifo.serve bytes operation.request).1 out.1 ∧
        out.2 = (Fifo.serve bytes operation.request).2 ∧ (out.2 = .refused → out.1 = s) := by
  cases operation with
  | writeByte input =>
    refine (writeByte_represents held input).bind fun after appended => ?_
    exact (returns_ok _ _).mpr ⟨appended, rfl, by simp⟩
  | writeBytes input =>
    refine (writeBytes_represents held input).bind fun after appended => ?_
    exact (returns_ok _ _).mpr ⟨appended, rfl, by simp⟩
  | readByte =>
    cases bytes with
    | nil =>
      have refused := readByte_refused held
      simp only [step, refused, ok_bind, pure_is_ok, returns_ok]
      exact ⟨held, rfl, by simp⟩
    | cons oldest later =>
      refine (readByte_represents held).bind ?_
      rintro ⟨result, after⟩ ⟨rfl, remaining⟩
      exact (returns_ok _ _).mpr ⟨by simpa [Operation.request, Fifo.serve] using remaining,
        by simp [Operation.request, Fifo.serve, reply], by simp [reply]⟩
  | readBytes output size =>
    by_cases enough : size ≤ bytes.length
    · have inRange := narrow (by rw [held.readable]; exact enough)
      refine (readBytes_represents held output proper.1 proper.2 enough inRange).bind ?_
      rintro ⟨result, filled, after⟩ ⟨rfl, -, -, -, remaining⟩
      refine (returns_ok _ _).mpr ⟨?_, ?_, by simp [reply]⟩
      · simpa only [Operation.request, Fifo.serve, enough, if_true] using remaining
      · simp [Operation.request, Fifo.serve, enough, reply]
    · have refused := readBytes_refused held output (Nat.lt_of_not_le enough)
      simp only [step, refused, ok_bind, pure_is_ok, returns_ok]
      refine ⟨?_, ?_, by simp⟩
      · simpa only [Operation.request, Fifo.serve, enough, if_false] using held
      · simp only [Operation.request, Fifo.serve, enough, if_false]
        rfl

/-- The balance bounds the number of segments kept. -/
theorem WellFormed.segments_bound (held : s.WellFormed) :
    s.buffers.length ≤ s.readableBytes / s.singleCapacity + 2 := by
  have positive := held.capacity
  have balance := held.balance
  have readerIndex := held.readerIndex
  have quotient : s.buffers.length - 1 ≤ (s.readableBytes + s.singleCapacity) / s.singleCapacity :=
    (Nat.le_div_iff_mul_le positive).mpr (by omega)
  rw [Nat.add_div_right _ positive] at quotient
  omega

/-- A run of calls on a fresh buffer, none of which reads past the range of
`bytesIndex`, never fails and answers as the queue does; the bytes left are
those the queue has left, and the segments and indices balance. Every moment
of a run is the end of a shorter one. -/
theorem byte_buffer_refines_fifo (heap : Nat → Block UInt8) (cap : Nat) (positive : 0 < cap)
    (operations : List Operation) (proper : ∀ operation ∈ operations, operation.Proper)
    (narrow : Transition.Meets step (fun s operation => operation.Narrow s) (new heap cap) operations) :
    ∃ final replies, Transition.run step (new heap cap) operations = .ok (final, replies) ∧
      replies = (Transition.runSpec Fifo.serve [] (operations.map Operation.request)).2 ∧
      final.content = (Transition.runSpec Fifo.serve [] (operations.map Operation.request)).1 ∧
      final.content.length = final.readableBytes ∧
      (∀ operation after, operation.Proper → operation.Narrow final →
        final.step operation = .ok (after, .refused) → after = final) ∧
      final.buffers ≠ [] ∧ final.buffers.head? = some final.currentReadBuffer ∧
      final.buffers.getLast? = some final.currentWriteBuffer ∧
      final.localReaderIndex ≤ cap ∧ final.localWriterIndex ≤ cap ∧
      final.readableBytes + final.localReaderIndex =
        (final.buffers.length - 1) * cap + final.localWriterIndex ∧
      final.buffers.length ≤ final.readableBytes / cap + 2 := by
  obtain ⟨⟨final, replies⟩, ran, held, same⟩ := Transition.run_refines
    (fun queue (operation : Operation) => Fifo.serve queue operation.request)
    (fun s queue => Represents cap queue s)
    (fun _ _ _ held admissible => (step_represents held admissible.1 admissible.2).mono
      fun _ out => ⟨out.1, out.2.1⟩)
    (represents_new heap positive) (narrow.and_forall proper)
  rw [← Transition.runSpec_map] at held same
  have wellFormed := held.wellFormed
  have capacity := held.capacity
  refine ⟨final, replies, ran, same, held.content, wellFormed.length_content, ?_, wellFormed.nonempty,
    wellFormed.reader, wellFormed.writer, capacity ▸ wellFormed.readerIndex,
    capacity ▸ wellFormed.writerIndex, capacity ▸ wellFormed.balance,
    capacity ▸ wellFormed.segments_bound⟩
  intro operation after proper narrow refused
  obtain ⟨out, stepped, -, -, unchanged⟩ := step_represents held proper narrow
  rw [refused] at stepped
  cases stepped
  exact unchanged rfl

/-- Segments of two bytes, and a read across three of them. -/
theorem byte_buffer_refines_fifo_small_segments : ∃ final replies,
    Transition.run step (new (fun _ _ => 0) 2)
      [.writeBytes [1, 2, 3, 4, 5], .readByte, .readBytes ⟨fun _ => 0, 3⟩ 3, .writeByte 6,
        .readBytes ⟨fun _ => 0, 3⟩ 3] = .ok (final, replies) ∧
      replies = [.pushed, .pulled [1], .pulled [2, 3, 4], .pushed, .refused] ∧
      final.content = [5, 6] := by
  obtain ⟨final, replies, ran, same, content, -⟩ := byte_buffer_refines_fifo (fun _ _ => 0) 2 (by decide)
    [.writeBytes [1, 2, 3, 4, 5], .readByte, .readBytes ⟨fun _ => 0, 3⟩ 3, .writeByte 6,
      .readBytes ⟨fun _ => 0, 3⟩ 3] (by simp [Operation.Proper])
    (Transition.meets_of_forall (by
      intro operation member state
      simp only [List.mem_cons, List.not_mem_nil, or_false] at member
      rcases member with rfl | rfl | rfl | rfl | rfl
      · trivial
      · trivial
      · exact fun _ => lastPieceOffset_lt _ _ (by decide)
      · trivial
      · exact fun _ => lastPieceOffset_lt _ _ (by decide)))
  exact ⟨final, replies, ran, same, content⟩

/-- A read of one byte more than a segment whose size is a multiple of 2^32:
`bytesIndex` is back at zero and the last byte is stored over the first one. -/
theorem wide_read_overwrites {first : List UInt8} {last : UInt8}
    (held : Represents cap (first ++ [last]) s) (start : s.localReaderIndex = 0)
    (segment : first.length = cap) (wraps : UInt32.ofNat cap = 0)
    (output : OutputArray) (room : output.size = cap + 1) :
    Returns (s.readBytes output (cap + 1)) fun out =>
      out.1.isSuccess = true ∧ out.1.value.head? = some last := by
  have positive := held.capacity_pos
  have capacity := held.capacity
  have readable := held.readable
  rw [List.length_append, List.length_singleton, segment] at readable
  have whole : (first ++ [last]).take cap = first := List.take_left' segment
  have tail : (first ++ [last]).drop cap = [last] := List.drop_left' segment
  have longer : cap < (first ++ [last]).length := by simp [segment]
  have edge : s.localReaderIndex + cap = cap := by omega
  obtain ⟨after, popped, remaining, index, -⟩ := popBuffer_represents held cap 0 edge
    (Nat.le_of_lt longer) (another_segment held edge longer)
  rw [tail] at remaining
  have fetched := fetch_represents held cap (by omega) (by rw [List.length_append, segment]; omega)
  rw [whole, start] at fetched
  have fetchedLast := fetch_represents remaining 1 (by omega) (by simp)
  rw [index, List.take_of_length_le (by simp)] at fetchedLast
  have stored : output.store 0 first = .ok { output with cells := output.cells.write 0 first } := by
    simp only [OutputArray.store, segment, room, if_neg (by omega : ¬ cap + 1 < 0 + cap), pure_is_ok]
  have drained : Reading.drainSegment ⟨s, output, cap + 1, 0⟩ cap =
      .ok ⟨after, { output with cells := output.cells.write 0 first }, 1, 0⟩ := by
    unfold Reading.drainSegment
    simp only [start, fetched, ok_bind, UInt32.toNat_zero, stored, popped, pure_is_ok, wraps,
      Nat.add_sub_cancel_left, UInt32.add_zero]
  have capacityAfter := remaining.capacity
  have done : Reading.wholeSegments
      ⟨after, { output with cells := output.cells.write 0 first }, 1, 0⟩ =
      .ok ⟨after, { output with cells := output.cells.write 0 first }, 1, 0⟩ := by
    simp [Reading.wholeSegments, loop, whileRound, capacityAfter, Nat.not_lt.mpr positive]
  have crossed : Reading.crossSegments ⟨s, output, cap + 1, 0⟩ =
      .ok ⟨after, { output with cells := output.cells.write 0 first }, 1, 0⟩ := by
    simp only [Reading.crossSegments, start, capacity, Nat.zero_add, gt_iff_lt, Nat.lt_add_one,
      if_true, Nat.sub_zero, drained, ok_bind, done]
  have refreshed : s.tryRefreshReaderBuffer = .ok s := by
    simp [tryRefreshReaderBuffer, start, capacity, Nat.not_le.mpr positive]
  have overwritten : OutputArray.store { output with cells := output.cells.write 0 first } 0 [last] =
      .ok { output with cells := (output.cells.write 0 first).write 0 [last] } := by
    simp only [OutputArray.store, room, List.length_singleton, if_neg (by omega : ¬ cap + 1 < 0 + 1),
      pure_is_ok]
  simp only [readBytes, readable, Nat.lt_irrefl, if_false, refreshed, ok_bind, crossed, index,
    fetchedLast, UInt32.toNat_zero, overwritten, pure_is_ok, returns_ok]
  refine ⟨rfl, ?_⟩
  rw [success_value, Nat.add_comm cap 1, Block.read_add, Block.read_one]
  simp [Block.write]

/-- A buffer whose segment size is a multiple of 2^32 does not answer as the
queue: after one write of a segment and a byte more, the read of all of it. -/
theorem wrapped_run_differs (first : List UInt8) (positive : 0 < cap)
    (segment : first.length = cap) (wraps : UInt32.ofNat cap = 0) (oldest : first.head? = some 0)
    (heap : Nat → Block UInt8) (cells : Block UInt8) :
    ¬ ∃ final replies, Transition.run step (new heap cap)
        [.writeBytes (first ++ [1]), .readBytes ⟨cells, cap + 1⟩ (cap + 1)] = .ok (final, replies) ∧
      replies = (Transition.runSpec Fifo.serve []
        [.push (first ++ [1]), .pull (cap + 1)]).2 := by
  rintro ⟨final, replies, ran, same⟩
  obtain ⟨written, wrote, held, index⟩ :=
    writeBytes_appends (represents_new heap positive) (first ++ [1])
  obtain ⟨⟨result, filled, after⟩, read, success, newest⟩ :=
    wide_read_overwrites held index segment wraps ⟨cells, cap + 1⟩ rfl
  have success : result.isSuccess = true := success
  have newest : result.value.head? = some 1 := newest
  simp only [Transition.run, step, wrote, read, ok_bind, pure_is_ok, reply, success, if_true,
    Except.ok.injEq, Prod.mk.injEq] at ran
  obtain ⟨-, rfl⟩ := ran
  have length : (first ++ [1]).length = cap + 1 := by simp [segment]
  simp only [Transition.runSpec, Fifo.serve, List.nil_append, length, Nat.le_refl, if_true,
    List.cons.injEq, Fifo.Reply.pulled.injEq, true_and, and_true, id_eq] at same
  rw [same, List.take_of_length_le (Nat.le_of_eq length), List.head?_append, oldest] at newest
  simp at newest

/-- One such read answers otherwise than the queue. -/
theorem byte_buffer_is_not_fifo_past_4GiB :
    ¬ ∀ (heap : Nat → Block UInt8) (cap : Nat) (operations : List Operation), 0 < cap →
      (∀ operation ∈ operations, operation.Proper) →
      ∃ final replies, Transition.run step (new heap cap) operations = .ok (final, replies) ∧
        replies = (Transition.runSpec Fifo.serve [] (operations.map Operation.request)).2 := by
  intro refines
  have wide (cap : Nat) (positive : 0 < cap) (wraps : UInt32.ofNat cap = 0) : False := by
    refine wrapped_run_differs (List.replicate cap 0) positive List.length_replicate wraps
      (by simp [List.head?_replicate, Nat.ne_of_gt positive]) (fun _ _ => 0) (fun _ => 0) ?_
    exact refines _ cap _ positive (by
      intro operation member
      simp only [List.mem_cons, List.not_mem_nil, or_false] at member
      rcases member with rfl | rfl
      · trivial
      · exact ⟨Nat.succ_pos cap, Nat.le_refl _⟩)
  exact wide (2 ^ 32) (by decide) (by decide)

end ShipNet.ByteBufferImpl
