import Mathlib.Data.List.Basic
import ShipNet.ByteBuffer

/-! What a byte buffer holds, the invariant that ties its indices to its
segments, and one statement for each operation on segments: the buffer after
it holds exactly these bytes. Every later proof cites these statements. -/
namespace ShipNet.ByteBufferImpl
open Fallible

/-- The contents of one segment. -/
def segment (s : ByteBufferImpl) (address : Nat) : List UInt8 :=
  (s.heap address).read 0 s.singleCapacity

/-- The bytes still readable, in the order in which the segments hold them. -/
def content (s : ByteBufferImpl) : List UInt8 :=
  ((s.buffers.flatMap s.segment).drop s.localReaderIndex).take s.readableBytes

/-- The readable bytes start in the first segment and stop in the last one;
either index may rest at the end of its segment. -/
structure WellFormed (s : ByteBufferImpl) : Prop where
  capacity : 0 < s.singleCapacity
  distinct : s.buffers.Nodup
  reader : s.buffers.head? = some s.currentReadBuffer
  writer : s.buffers.getLast? = some s.currentWriteBuffer
  allocated : ∀ address ∈ s.buffers, address < s.nextSegment
  released : ∀ address ∈ s.freed, address < s.nextSegment
  live : ∀ address ∈ s.buffers, address ∉ s.freed
  readerIndex : s.localReaderIndex ≤ s.singleCapacity
  writerIndex : s.localWriterIndex ≤ s.singleCapacity
  balance : s.readableBytes + s.localReaderIndex =
    (s.buffers.length - 1) * s.singleCapacity + s.localWriterIndex

/-- The buffer is a well-formed one of this capacity that holds these bytes. -/
structure Represents (cap : Nat) (bytes : List UInt8) (s : ByteBufferImpl) : Prop where
  wellFormed : s.WellFormed
  capacity : s.singleCapacity = cap
  content : s.content = bytes

variable {s : ByteBufferImpl} {cap : Nat} {bytes : List UInt8}

theorem length_segments (s : ByteBufferImpl) (addresses : List Nat) :
    (addresses.flatMap s.segment).length = addresses.length * s.singleCapacity := by
  induction addresses with
  | nil => simp
  | cons address rest ih => simp [ih, segment, Nat.add_mul, Nat.add_comm]

theorem WellFormed.nonempty (held : s.WellFormed) : s.buffers ≠ [] := by
  intro empty
  simpa [empty] using held.reader

theorem WellFormed.length_pos (held : s.WellFormed) : 0 < s.buffers.length :=
  List.length_pos_iff.mpr held.nonempty

/-- The segments are those before the last one, and the last one. -/
theorem segments_before_last {count : Nat} (positive : 0 < count) (cap : Nat) :
    (count - 1) * cap + cap = count * cap := by
  rw [← Nat.succ_mul, Nat.succ_eq_add_one, Nat.sub_add_cancel positive]

/-- A second segment is there because the bytes read and readable go past the first. -/
theorem WellFormed.one_segment_or_more (held : s.WellFormed) :
    s.buffers.length = 1 ∧ s.readableBytes + s.localReaderIndex = s.localWriterIndex ∨
      1 < s.buffers.length ∧ s.singleCapacity + s.localWriterIndex ≤ s.readableBytes + s.localReaderIndex := by
  have positive := held.length_pos
  have balance := held.balance
  by_cases single : s.buffers.length = 1
  · rw [single, Nat.sub_self, Nat.zero_mul] at balance
    exact .inl ⟨single, by omega⟩
  · have another : 1 * s.singleCapacity ≤ (s.buffers.length - 1) * s.singleCapacity :=
      Nat.mul_le_mul_right _ (by omega)
    exact .inr ⟨by omega, by omega⟩

theorem WellFormed.segments_cover (held : s.WellFormed) :
    s.localReaderIndex + s.readableBytes ≤ (s.buffers.flatMap s.segment).length := by
  have last := segments_before_last held.length_pos s.singleCapacity
  have balance := held.balance
  have writerIndex := held.writerIndex
  rw [length_segments]
  omega

/-- `readableBytes` counts the readable bytes. -/
theorem WellFormed.length_content (held : s.WellFormed) : s.content.length = s.readableBytes := by
  have cover := held.segments_cover
  simp only [ByteBufferImpl.content, List.length_take, List.length_drop]
  omega

theorem Represents.readable (held : Represents cap bytes s) : s.readableBytes = bytes.length := by
  rw [← held.content, held.wellFormed.length_content]

theorem WellFormed.represents (held : s.WellFormed) : Represents s.singleCapacity s.content s :=
  ⟨held, rfl, rfl⟩

theorem Represents.capacity_pos (held : Represents cap bytes s) : 0 < cap :=
  held.capacity ▸ held.wellFormed.capacity

theorem represents_new (heap : Nat → Block UInt8) (positive : 0 < cap) :
    Represents cap [] (new heap cap) where
  wellFormed := by constructor <;> simp [new, positive]
  capacity := rfl
  content := by simp [ByteBufferImpl.content, new]

/-! ### The writer's side -/

/-- Up to the writer's index the segments hold the unread bytes, after those
already read. -/
private theorem content_eq_written (held : s.WellFormed) {front : List Nat} {back : Nat}
    (split : s.buffers = front ++ [back]) :
    s.content = (front.flatMap s.segment ++ (s.heap back).read 0 s.localWriterIndex).drop
      s.localReaderIndex := by
  have balance := held.balance
  have writerIndex := held.writerIndex
  have total : s.localReaderIndex + s.readableBytes =
      (front.flatMap s.segment).length + s.localWriterIndex := by
    rw [length_segments]
    simp only [split, List.length_append, List.length_singleton, Nat.add_sub_cancel] at balance
    omega
  rw [ByteBufferImpl.content, List.take_drop, total, split, List.flatMap_append,
    List.flatMap_singleton, List.take_length_add_append, segment, Block.take_read,
    Nat.min_eq_left writerIndex]

/-- A copy that fits behind the writer's index appends to the readable bytes,
once the index and the count have been moved. -/
theorem store_represents (held : Represents cap bytes s) (input : List UInt8)
    (fits : s.localWriterIndex + input.length ≤ cap) :
    Returns (s.store s.localWriterIndex input) fun after =>
      after = { s with heap := after.heap } ∧
      Represents cap (bytes ++ input) { after with
        readableBytes := after.readableBytes + input.length
        localWriterIndex := after.localWriterIndex + input.length } := by
  obtain ⟨wellFormed, rfl, rfl⟩ := held
  obtain ⟨front, split⟩ := List.getLast?_eq_some_iff.mp wellFormed.writer
  have member : s.currentWriteBuffer ∈ s.buffers := by simp [split]
  have apart : s.currentWriteBuffer ∉ front := by
    have distinct := wellFormed.distinct
    rw [split] at distinct
    exact fun inFront => (List.nodup_append.mp distinct).2.2 _ inFront _ (by simp) rfl
  simp only [store, if_neg (wellFormed.live _ member), if_neg (Nat.not_lt.mpr fits), pure_is_ok,
    returns_ok, true_and]
  have after : WellFormed { s with
      heap := Function.update s.heap s.currentWriteBuffer
        ((s.heap s.currentWriteBuffer).write s.localWriterIndex input)
      readableBytes := s.readableBytes + input.length
      localWriterIndex := s.localWriterIndex + input.length } :=
    { wellFormed with
      writerIndex := fits
      balance := by
        have balance := wellFormed.balance
        simp only
        omega }
  refine ⟨after, rfl, ?_⟩
  rw [content_eq_written after split, content_eq_written wellFormed split]
  have unchanged : front.flatMap (segment { s with
      heap := Function.update s.heap s.currentWriteBuffer
        ((s.heap s.currentWriteBuffer).write s.localWriterIndex input)
      readableBytes := s.readableBytes + input.length
      localWriterIndex := s.localWriterIndex + input.length }) = front.flatMap s.segment := by
    apply List.flatMap_congr
    intro address inFront
    have other : address ≠ s.currentWriteBuffer := fun same => apart (same ▸ inFront)
    simp [segment, Function.update_of_ne other]
  have behind : s.localReaderIndex ≤ (front.flatMap s.segment ++
      (s.heap s.currentWriteBuffer).read 0 s.localWriterIndex).length := by
    have balance := wellFormed.balance
    simp only [split, List.length_append, List.length_singleton, Nat.add_sub_cancel] at balance
    rw [List.length_append, length_segments, Block.length_read]
    omega
  have joined := Block.read_write_through (s.heap s.currentWriteBuffer) 0 s.localWriterIndex input
  rw [Nat.zero_add] at joined
  simp only [unchanged, Function.update_self, joined, ← List.append_assoc]
  exact List.drop_append_of_le_length behind

theorem appendBuffer_represents (held : Represents cap bytes s) (full : s.localWriterIndex = cap) :
    Represents cap bytes s.appendBuffer := by
  obtain ⟨wellFormed, rfl, rfl⟩ := held
  have fresh : s.nextSegment ∉ s.buffers := fun member =>
    Nat.lt_irrefl _ (wellFormed.allocated _ member)
  have notFreed : s.nextSegment ∉ s.freed := fun member =>
    Nat.lt_irrefl _ (wellFormed.released _ member)
  refine ⟨?_, rfl, ?_⟩
  · exact {
      capacity := wellFormed.capacity
      distinct := by
        simp only [appendBuffer]
        exact List.nodup_append.mpr ⟨wellFormed.distinct, by simp, by
          intro address member other same
          simp only [List.mem_singleton] at same
          rintro rfl
          exact fresh (same ▸ member)⟩
      reader := by
        simp only [appendBuffer, List.head?_append, wellFormed.reader, Option.some_or]
      writer := by simp [appendBuffer]
      allocated := by
        intro address member
        simp only [appendBuffer, List.mem_append, List.mem_singleton] at member ⊢
        rcases member with old | rfl
        · exact Nat.lt_succ_of_lt (wellFormed.allocated _ old)
        · exact Nat.lt_succ_self _
      released := fun address member => Nat.lt_succ_of_lt (wellFormed.released address member)
      live := by
        intro address member
        simp only [appendBuffer, List.mem_append, List.mem_singleton] at member
        rcases member with old | rfl
        · exact wellFormed.live _ old
        · exact notFreed
      readerIndex := wellFormed.readerIndex
      writerIndex := Nat.zero_le _
      balance := by
        have balance := wellFormed.balance
        have last := segments_before_last wellFormed.length_pos s.singleCapacity
        simp only [appendBuffer, List.length_append, List.length_singleton, Nat.add_sub_cancel]
        omega }
  · have cover := wellFormed.segments_cover
    have same : s.appendBuffer.segment = s.segment := rfl
    simp only [ByteBufferImpl.content, same]
    simp only [appendBuffer, List.flatMap_append]
    rw [List.drop_append_of_le_length (by omega), List.take_append_of_le_length]
    rw [List.length_drop]
    omega

/-! ### The reader's side -/

/-- What stands behind the reader's index in its segment is what comes next. -/
theorem fetch_represents (held : Represents cap bytes s) (count : Nat)
    (inside : s.localReaderIndex + count ≤ cap) (enough : count ≤ bytes.length) :
    s.fetch s.localReaderIndex count = .ok (bytes.take count) := by
  have readable := held.readable
  obtain ⟨wellFormed, rfl, rfl⟩ := held
  obtain ⟨rest, split⟩ := List.head?_eq_some_iff.mp wellFormed.reader
  have member : s.currentReadBuffer ∈ s.buffers := by simp [split]
  simp only [fetch, if_neg (wellFormed.live _ member), if_neg (Nat.not_lt.mpr inside), pure_is_ok,
    Except.ok.injEq]
  rw [ByteBufferImpl.content, List.take_take, Nat.min_eq_left (by omega), split, List.flatMap_cons,
    List.drop_append_of_le_length (by simpa [segment] using wellFormed.readerIndex),
    List.take_append_of_le_length (by simp [segment]; omega), segment, Block.drop_read,
    Block.take_read, Nat.zero_add, Nat.min_eq_left (by omega)]

/-- Moving the reader's index within its segment drops what it passes. -/
theorem advance_represents (held : Represents cap bytes s) (count : Nat)
    (inside : s.localReaderIndex + count ≤ cap) (enough : count ≤ bytes.length) :
    Represents cap (bytes.drop count) { s with
      localReaderIndex := s.localReaderIndex + count
      readableBytes := s.readableBytes - count } := by
  have readable := held.readable
  obtain ⟨wellFormed, rfl, rfl⟩ := held
  refine ⟨{ wellFormed with readerIndex := inside, balance := ?_ }, rfl, ?_⟩
  · have balance := wellFormed.balance
    simp only
    omega
  · have same : segment { s with
        localReaderIndex := s.localReaderIndex + count
        readableBytes := s.readableBytes - count } = s.segment := rfl
    simp only [ByteBufferImpl.content, same, List.drop_take, List.drop_drop]

/-- With more to read past the end of the first segment there is another one. -/
theorem another_segment (held : Represents cap bytes s) {count : Nat}
    (edge : s.localReaderIndex + count = cap) (more : count < bytes.length) : 1 < s.buffers.length := by
  have readable := held.readable
  have capacity := held.capacity
  have writerIndex := held.wellFormed.writerIndex
  rcases held.wellFormed.one_segment_or_more with ⟨-, balance⟩ | ⟨another, -⟩
  · omega
  · exact another

/-- Popping a segment read to its end, with another one after it. The reader's
index has no part in it: `PopBuffer` assigns it. -/
theorem popBuffer_represents (held : Represents cap bytes s) (count index : Nat)
    (edge : s.localReaderIndex + count = cap) (enough : count ≤ bytes.length)
    (another : 1 < s.buffers.length) :
    Returns (popBuffer { s with
        readableBytes := s.readableBytes - count
        localReaderIndex := index }) fun after =>
      Represents cap (bytes.drop count) after ∧ after.localReaderIndex = 0 ∧
        after.buffers.length + 1 = s.buffers.length := by
  have readable := held.readable
  obtain ⟨wellFormed, rfl, rfl⟩ := held
  have balance := wellFormed.balance
  have writerIndex := wellFormed.writerIndex
  obtain ⟨rest, split⟩ := List.head?_eq_some_iff.mp wellFormed.reader
  cases rest with
  | nil =>
    rw [split] at another
    exact absurd another (Nat.lt_irrefl 1)
  | cons next rest =>
    have distinct := wellFormed.distinct
    have writer := wellFormed.writer
    have live := wellFormed.live
    have allocated := wellFormed.allocated
    rw [split] at distinct writer live allocated
    simp only [popBuffer, split, pure_is_ok, returns_ok, List.length_cons, and_self, and_true]
    refine ⟨?_, rfl, ?_⟩
    · exact {
        capacity := wellFormed.capacity
        distinct := (List.nodup_cons.mp distinct).2
        reader := rfl
        writer := by simpa using writer
        allocated := fun address member => allocated address (List.mem_cons_of_mem _ member)
        released := by
          intro address member
          rcases List.mem_cons.mp member with rfl | old
          · exact allocated _ List.mem_cons_self
          · exact wellFormed.released _ old
        live := by
          intro address member freed
          rcases List.mem_cons.mp freed with rfl | old
          · exact (List.nodup_cons.mp distinct).1 member
          · exact live address (List.mem_cons_of_mem _ member) old
        readerIndex := Nat.zero_le _
        writerIndex := writerIndex
        balance := by
          simp only [split, List.length_cons, Nat.add_sub_cancel] at balance ⊢
          rw [Nat.add_mul] at balance
          omega }
    · have first : (s.segment s.currentReadBuffer).length = s.singleCapacity := by simp [segment]
      have passed : (s.segment s.currentReadBuffer ++ (next :: rest).flatMap s.segment).drop
          (s.localReaderIndex + count) = (next :: rest).flatMap s.segment := by
        rw [edge]
        exact List.drop_left' first
      simp only [ByteBufferImpl.content, split, List.drop_take, List.drop_drop, List.drop_zero]
      rw [List.flatMap_cons (f := s.segment) (x := s.currentReadBuffer), passed]
      rfl

end ShipNet.ByteBufferImpl
