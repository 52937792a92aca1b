import ShipNet.Codec

/-! Whether `WriteBytes` ends, and stays within the segments. Only the writer's side of a
buffer matters, which reads cannot spoil. Its loop takes a segment's size from what is left
at a time, and an array that a peer sent with no bytes makes that size zero. -/
namespace ShipNet.ByteBufferImpl
open Fallible

variable {s after : ByteBufferImpl} {input : List UInt8}

/-- A buffer made of a capacity or of an array that was read, and what any calls that
come back lead to from there. -/
inductive Obtained : ByteBufferImpl → Prop
  | new (heap : Nat → Block UInt8) {cap : Nat} (positive : 0 < cap) : Obtained (.new heap cap)
  | byteArray {source left buffer : ByteBufferImpl} {fresh : Block UInt8} {heap : Nat → Block UInt8}
      (ran : source.readByteArray fresh heap = .ok (successErrorable (some buffer), left)) : Obtained buffer
  | byteArrayWithin {source left buffer : ByteBufferImpl} {fresh : Block UInt8} {heap : Nat → Block UInt8}
      {maxSize : UInt32}
      (ran : source.readByteArrayWithin fresh heap maxSize = .ok (successErrorable (some buffer), left)) :
      Obtained buffer
  | byteWritten {s after : ByteBufferImpl} {input : UInt8} (obtained : Obtained s)
      (ran : s.writeByte input = .ok after) : Obtained after
  | written {s after : ByteBufferImpl} {input : List UInt8} (obtained : Obtained s)
      (ran : s.writeBytes input = .ok after) : Obtained after
  | deleted {s after : ByteBufferImpl} {input : List UInt8} (obtained : Obtained s)
      (ran : s.writeBytesAndDelete input = .ok after) : Obtained after
  | transferred {s after source left : ByteBufferImpl} {scratch cells : Block UInt8} {size : Nat}
      (obtained : Obtained s) (ran : s.writeBytesFrom scratch source size = .ok (after, cells, left)) : Obtained after
  | writeSkipped {s after : ByteBufferImpl} {count rest : UInt64} (obtained : Obtained s)
      (ran : s.skipWriteBytes count = .ok (rest, after)) : Obtained after
  | writerReset {s : ByteBufferImpl} (obtained : Obtained s) : Obtained s.resetWriterIndex
  | byteRead {s after : ByteBufferImpl} {byte : UInt8} (obtained : Obtained s)
      (ran : s.readByteUnsafe = .ok (byte, after)) : Obtained after
  | read {s after : ByteBufferImpl} {output filled : OutputArray} {size : Nat} {result : Errorable (List UInt8)}
      (obtained : Obtained s) (ran : s.readBytes output size = .ok (result, filled, after)) : Obtained after
  | readSkipped {s after : ByteBufferImpl} {count : Nat} {result : Errorable Nat} (obtained : Obtained s)
      (ran : s.skipReadBytes count = .ok (result, after)) : Obtained after
  | readerReset {s : ByteBufferImpl} (obtained : Obtained s) : Obtained s.resetReaderIndex

/-- The call comes back, and no copy leaves its segment. -/
def EndsInside (s : ByteBufferImpl) (input : List UInt8) : Prop :=
  Returns (s.writeBytes input) fun _ => True

/-- The writer's index is inside its segment, which is not freed and not one that a pop
can reach. -/
structure WriterSound (s : ByteBufferImpl) : Prop where
  index : s.localWriterIndex ≤ s.singleCapacity
  live : s.currentWriteBuffer ∉ s.freed
  last : s.currentWriteBuffer ∉ s.buffers.dropLast
  allocated : ∀ address ∈ s.buffers, address < s.nextSegment
  released : ∀ address ∈ s.freed, address < s.nextSegment

/-! ### Segments -/

theorem writerSound_new (heap : Nat → Block UInt8) (cap : Nat) : WriterSound (new heap cap) := by
  constructor <;> simp [new]

theorem writerSound_ofArray (heap : Nat → Block UInt8) (cells : Block UInt8) (cap : Nat) :
    WriterSound (ofArray heap cells cap) := by
  constructor <;> simp [ofArray]

theorem WriterSound.store (sound : WriterSound s) (offset : Nat) (fits : offset + input.length ≤ s.singleCapacity) :
    Returns (s.store offset input) fun after => after = { s with heap := after.heap } := by
  simp only [ByteBufferImpl.store, if_neg sound.live, if_neg (Nat.not_lt.mpr fits), pure_is_ok, returns_ok]

/-- A copy changes nothing but cells, and those inside of the segment. -/
theorem store_ok {offset : Nat} (ran : s.store offset input = .ok after) :
    after = { s with heap := after.heap } ∧ offset + input.length ≤ s.singleCapacity := by
  unfold ByteBufferImpl.store at ran
  split at ran
  · cases ran
  · split at ran
    · cases ran
    · rename_i inside
      cases ran
      exact ⟨rfl, Nat.le_of_not_lt inside⟩

theorem WriterSound.appendBuffer (sound : WriterSound s) : WriterSound s.appendBuffer where
  index := Nat.zero_le _
  live := fun freed => Nat.lt_irrefl _ (sound.released _ freed)
  last := by
    show s.nextSegment ∉ (s.buffers ++ [s.nextSegment]).dropLast
    rw [List.dropLast_concat]
    exact fun member => Nat.lt_irrefl _ (sound.allocated _ member)
  allocated := by
    intro address member
    rcases List.mem_append.mp member with old | newest
    · exact Nat.lt_succ_of_lt (sound.allocated address old)
    · rw [List.mem_singleton.mp newest]
      exact Nat.lt_succ_self _
  released := fun address freed => Nat.lt_succ_of_lt (sound.released address freed)

/-- The segment that is popped is not the last, so it is not the writer's. -/
theorem WriterSound.popBuffer (sound : WriterSound s) (popped : s.popBuffer = .ok after) : WriterSound after := by
  unfold ByteBufferImpl.popBuffer at popped
  split at popped
  · rename_i front next rest split
    cases popped
    have last := sound.last
    have allocated := sound.allocated
    rw [split] at last allocated
    rw [List.dropLast_cons_cons, List.mem_cons, not_or] at last
    exact {
      index := sound.index
      live := fun freed => (List.mem_cons.mp freed).elim last.1 sound.live
      last := last.2
      allocated := fun address member => allocated address (List.mem_cons_of_mem _ member)
      released := by
        intro address freed
        rcases List.mem_cons.mp freed with rfl | old
        · exact allocated address List.mem_cons_self
        · exact sound.released address old }
  · cases popped

theorem WriterSound.tryRefreshWriterBuffer (sound : WriterSound s) : WriterSound s.tryRefreshWriterBuffer := by
  unfold ByteBufferImpl.tryRefreshWriterBuffer
  split
  · exact sound.appendBuffer
  · exact sound

theorem WriterSound.tryRefreshReaderBuffer (sound : WriterSound s) (ran : s.tryRefreshReaderBuffer = .ok after) :
    WriterSound after := by
  unfold ByteBufferImpl.tryRefreshReaderBuffer at ran
  split at ran
  · exact sound.popBuffer ran
  · cases ran
    exact sound

theorem tryRefreshWriterBuffer_capacity (s : ByteBufferImpl) :
    s.tryRefreshWriterBuffer.singleCapacity = s.singleCapacity := by
  unfold ByteBufferImpl.tryRefreshWriterBuffer
  split <;> rfl

/-- A copy behind the writer's index, and the index behind the copy. -/
theorem WriterSound.advance (sound : WriterSound s) (count readable : Nat)
    (fits : s.localWriterIndex + count ≤ s.singleCapacity) (heap : Nat → Block UInt8) :
    WriterSound { s with
      heap := heap
      localWriterIndex := s.localWriterIndex + count
      readableBytes := readable } :=
  { sound with index := fits }

/-- What the reader does with its index has no part in it. -/
theorem WriterSound.moved (sound : WriterSound s) (readerIndex readable : Nat) :
    WriterSound { s with
      localReaderIndex := readerIndex
      readableBytes := readable } :=
  { sound with }

/-! ### Writes -/

/-- The locals of a write of these bytes. -/
private structure Copying (input : List UInt8) (cap : Nat) (w : Writing) : Prop where
  sound : WriterSound w.buffer
  capacity : w.buffer.singleCapacity = cap
  balance : w.bytesIndex + w.size = input.length

variable {cap : Nat} {w : Writing}

private theorem Copying.fillSegment (copying : Copying input cap w) (copiedBytes : Nat)
    (fits : w.buffer.localWriterIndex + copiedBytes ≤ cap) (enough : copiedBytes ≤ w.size) :
    Returns (w.fillSegment input copiedBytes) fun next =>
      Copying input cap next ∧ next.size = w.size - copiedBytes ∧ next.buffer.localWriterIndex = 0 := by
  have balance := copying.balance
  have taken : ((input.drop w.bytesIndex).take copiedBytes).length = copiedBytes := by
    rw [List.length_take, List.length_drop]
    omega
  apply (copying.sound.store w.buffer.localWriterIndex (by rw [taken, copying.capacity]; exact fits)).bind
  rintro stored same
  refine (returns_ok _ _).mpr ⟨⟨?_, ?_, ?_⟩, rfl, rfl⟩
  · rw [same]
    exact WriterSound.appendBuffer { copying.sound with }
  · rw [same]
    exact copying.capacity
  · simp only
    omega

private theorem Copying.wholeSegments (copying : Copying input cap w) (positive : 0 < cap)
    (start : w.buffer.localWriterIndex = 0) :
    Returns (w.wholeSegments input) fun final => Copying input cap final ∧
      final.buffer.localWriterIndex + final.size ≤ cap := by
  refine (while_returns (fun w => Copying input cap w ∧ w.buffer.localWriterIndex = 0) Writing.size ?_
    ⟨copying, start⟩ (Nat.lt_succ_self _)).mono ?_
  · rintro w ⟨copying, start⟩ more
    have more : cap < w.size := copying.capacity ▸ of_decide_eq_true more
    rw [copying.capacity]
    refine (copying.fillSegment cap (by omega) (Nat.le_of_lt more)).mono ?_
    rintro next ⟨filled, size, index⟩
    exact ⟨⟨filled, index⟩, by omega⟩
  · rintro final ⟨⟨filled, index⟩, done⟩
    have done : ¬ cap < final.size := filled.capacity ▸ of_decide_eq_false done
    exact ⟨filled, by omega⟩

private theorem Copying.crossSegments (copying : Copying input cap w) (room : 0 < cap ∨ w.size = 0) :
    Returns (w.crossSegments input) fun final => Copying input cap final ∧
      final.buffer.localWriterIndex + final.size ≤ cap := by
  have index := copying.capacity ▸ copying.sound.index
  unfold Writing.crossSegments
  rw [copying.capacity]
  split
  · rename_i crosses
    have positive : 0 < cap := room.resolve_right (by omega)
    apply (copying.fillSegment (cap - w.buffer.localWriterIndex) (by omega) (by omega)).bind
    rintro next ⟨filled, -, start⟩
    exact filled.wholeSegments positive start
  · rename_i within
    exact (returns_ok _ _).mpr ⟨copying, Nat.le_of_not_lt within⟩

/-- With a capacity, or with nothing to write, the write ends, and keeps the writer sound. -/
theorem WriterSound.writeBytes (sound : WriterSound s) (room : 0 < s.singleCapacity ∨ input = []) :
    Returns (s.writeBytes input) WriterSound := by
  have copying : Copying input s.singleCapacity ⟨s.tryRefreshWriterBuffer, input.length, 0⟩ :=
    ⟨sound.tryRefreshWriterBuffer, tryRefreshWriterBuffer_capacity s, Nat.zero_add _⟩
  apply (copying.crossSegments (room.imp_right (List.length_eq_zero_iff.mpr))).bind
  rintro w ⟨filled, fits⟩
  have balance := filled.balance
  have taken : ((input.drop w.bytesIndex).take w.size).length = w.size := by
    rw [List.length_take, List.length_drop]
    omega
  rw [← filled.capacity] at fits
  apply (filled.sound.store w.buffer.localWriterIndex (by rw [taken]; exact fits)).bind
  rintro stored same
  rw [same]
  exact (returns_ok _ _).mpr (filled.sound.advance w.size _ fits _)

/-- Where the size of a segment is zero, nothing is copied into one. -/
theorem fillSegment_nothing (sound : WriterSound w.buffer) (empty : w.buffer.singleCapacity = 0)
    (input : List UInt8) :
    Returns (w.fillSegment input 0) fun next =>
      WriterSound next.buffer ∧ next.buffer.singleCapacity = 0 ∧ next.size = w.size := by
  have index := sound.index
  apply (sound.store w.buffer.localWriterIndex (by rw [List.take_zero]; exact index)).bind
  rintro stored same
  refine (returns_ok _ _).mpr ⟨?_, ?_, Nat.sub_zero _⟩
  · rw [same]
    exact WriterSound.appendBuffer { sound with }
  · rw [same]
    exact empty

/-- The round of the loop of `WriteBytes`. -/
abbrev segmentRound (input : List UInt8) : Writing → Exec (Round Writing Writing) :=
  whileRound (fun w => w.size > w.buffer.singleCapacity) fun w => w.fillSegment input w.buffer.singleCapacity

/-- A write with nothing to write into, and something left to write. -/
private structure Stuck (w : Writing) : Prop where
  sound : WriterSound w.buffer
  empty : w.buffer.singleCapacity = 0
  more : 0 < w.size

/-- A round of the loop takes nothing away from what is left. -/
private theorem Stuck.round (stuck : Stuck w) :
    ∃ next, segmentRound input w = .ok (.again next) ∧ Stuck next := by
  obtain ⟨next, filled, sound, empty, size⟩ := fillSegment_nothing stuck.sound stuck.empty input
  have guard : decide (w.size > w.buffer.singleCapacity) = true := by
    rw [stuck.empty]
    exact decide_eq_true stuck.more
  refine ⟨next, ?_, sound, empty, size ▸ stuck.more⟩
  rw [segmentRound, whileRound, if_pos guard, stuck.empty, filled]
  rfl

theorem never_ends (sound : WriterSound w.buffer) (empty : w.buffer.singleCapacity = 0) (more : 0 < w.size) :
    ¬ Ends Fault.endless (segmentRound input) w :=
  not_ends Stuck (fun _ stuck => stuck.round) ⟨sound, empty, more⟩

/-- Without a capacity, a write of something goes into such a loop. -/
theorem WriterSound.writeBytes_endless (sound : WriterSound s) (empty : s.singleCapacity = 0) (more : input ≠ []) :
    s.writeBytes input = .error .endless := by
  have refreshed := sound.tryRefreshWriterBuffer
  have capacity : s.tryRefreshWriterBuffer.singleCapacity = 0 := by rw [tryRefreshWriterBuffer_capacity, empty]
  have index : s.tryRefreshWriterBuffer.localWriterIndex = 0 := Nat.le_zero.mp (capacity ▸ refreshed.index)
  have length : 0 < input.length := List.length_pos_iff.mpr more
  obtain ⟨next, filled, sound, empty, size⟩ :=
    fillSegment_nothing (w := ⟨s.tryRefreshWriterBuffer, input.length, 0⟩) refreshed capacity input
  have stuck : Stuck next := ⟨sound, empty, size ▸ length⟩
  have endless : next.wholeSegments input = .error .endless := loop_endless Stuck (fun _ stuck => stuck.round) stuck
  have crossed : Writing.crossSegments input ⟨s.tryRefreshWriterBuffer, input.length, 0⟩ = .error .endless := by
    unfold Writing.crossSegments
    simp only [capacity, index, Nat.zero_add, if_pos length, Nat.sub_zero, gt_iff_lt, filled, ok_bind, endless]
  simp only [ByteBufferImpl.writeBytes, crossed, error_bind]

/-- The write ends exactly if there is a capacity, or nothing to write. -/
theorem WriterSound.endsInside_iff (sound : WriterSound s) (input : List UInt8) :
    EndsInside s input ↔ 0 < s.singleCapacity ∨ input = [] := by
  constructor
  · intro ends
    by_cases empty : s.singleCapacity = 0
    · by_cases nothing : input = []
      · exact .inr nothing
      · rw [EndsInside, sound.writeBytes_endless empty nothing] at ends
        exact absurd ends (returns_error _ _)
    · exact .inl (Nat.pos_of_ne_zero empty)
  · intro room
    exact (sound.writeBytes room).mono fun _ _ => trivial

/-! ### Every call keeps the writer sound -/

theorem WriterSound.writeByte {byte : UInt8} (sound : WriterSound s) (ran : s.writeByte byte = .ok after) :
    WriterSound after := by
  obtain ⟨stored, copied, written⟩ := returns_of_bind ran
  obtain ⟨same, fits⟩ := store_ok copied
  cases written
  rw [same]
  exact sound.tryRefreshWriterBuffer.advance 1 _ fits _

theorem WriterSound.written (sound : WriterSound s) (ran : s.writeBytes input = .ok after) : WriterSound after := by
  have room := (sound.endsInside_iff input).mp ⟨after, ran, trivial⟩
  obtain ⟨_, same, kept⟩ := sound.writeBytes room
  cases ran.symm.trans same
  exact kept

/-- The array that is taken over becomes the last segment. The writer stays where it was,
in an array that is none. -/
theorem WriterSound.writeBytesAndDelete (sound : WriterSound s) (ran : s.writeBytesAndDelete input = .ok after) :
    WriterSound after := by
  unfold ByteBufferImpl.writeBytesAndDelete at ran
  split at ran
  · split at ran
    · cases ran
    · cases ran
      exact {
        index := sound.index
        live := sound.live
        last := by
          rw [List.dropLast_concat]
          exact sound.last
        allocated := by
          intro address member
          rcases List.mem_append.mp member with old | newest
          · exact Nat.lt_succ_of_lt (sound.allocated address (List.dropLast_subset _ old))
          · rw [List.mem_singleton.mp newest]
            exact Nat.lt_succ_self _
        released := fun address freed => Nat.lt_succ_of_lt (sound.released address freed) }
  · exact sound.written ran

theorem WriterSound.writeBytesFrom {source left : ByteBufferImpl} {scratch cells : Block UInt8} {size : Nat}
    (sound : WriterSound s) (ran : s.writeBytesFrom scratch source size = .ok (after, cells, left)) :
    WriterSound after := by
  obtain ⟨⟨_, output, rest⟩, -, ran⟩ := returns_of_bind ran
  simp only at ran
  split at ran
  · cases ran
  · obtain ⟨written, wrote, same⟩ := returns_of_bind ran
    cases same
    exact sound.written wrote

theorem WriterSound.skipWriteBytes {count rest : UInt64} (sound : WriterSound s)
    (ran : s.skipWriteBytes count = .ok (rest, after)) : WriterSound after := by
  obtain ⟨⟨final, left⟩, looped, same⟩ := returns_of_bind ran
  cases same
  obtain ⟨kept, done⟩ := while_ok (fun state => WriterSound state.1) (by
    rintro ⟨s, count⟩ next sound - stepped
    cases stepped
    exact sound.appendBuffer) (show WriterSound _ from { sound with }) looped
  have short : rest.toNat ≤ final.singleCapacity - final.localWriterIndex :=
    Nat.le_of_not_lt (of_decide_eq_false done)
  exact WriterSound.tryRefreshWriterBuffer { kept with index := Nat.le_trans short (Nat.sub_le _ _) }

theorem WriterSound.readByteUnsafe {byte : UInt8} (sound : WriterSound s)
    (ran : s.readByteUnsafe = .ok (byte, after)) : WriterSound after := by
  obtain ⟨refreshed, refresh, ran⟩ := returns_of_bind ran
  obtain ⟨bytes, -, same⟩ := returns_of_bind ran
  cases same
  exact { sound.tryRefreshReaderBuffer refresh with }

private theorem WriterSound.drainSegment {r next : Reading} {copiedBytes : Nat} (sound : WriterSound r.buffer)
    (ran : r.drainSegment copiedBytes = .ok next) : WriterSound next.buffer := by
  obtain ⟨bytes, -, ran⟩ := returns_of_bind ran
  obtain ⟨output, -, ran⟩ := returns_of_bind ran
  obtain ⟨popped, pop, same⟩ := returns_of_bind ran
  cases same
  exact (sound.moved 0 _).popBuffer pop

theorem WriterSound.readBytes {output filled : OutputArray} {size : Nat} {result : Errorable (List UInt8)}
    (sound : WriterSound s) (ran : s.readBytes output size = .ok (result, filled, after)) : WriterSound after := by
  unfold ByteBufferImpl.readBytes at ran
  split at ran
  · cases ran
    exact sound
  · obtain ⟨refreshed, refresh, ran⟩ := returns_of_bind ran
    obtain ⟨r, crossed, ran⟩ := returns_of_bind ran
    obtain ⟨bytes, -, ran⟩ := returns_of_bind ran
    obtain ⟨stored, -, same⟩ := returns_of_bind ran
    cases same
    have begun := sound.tryRefreshReaderBuffer refresh
    have kept : WriterSound r.buffer := by
      unfold Reading.crossSegments at crossed
      split at crossed
      · obtain ⟨next, drained, whole⟩ := returns_of_bind crossed
        exact (while_ok (fun r => WriterSound r.buffer) (fun _ _ sound _ ran => sound.drainSegment ran)
          (begun.drainSegment drained) whole).1
      · cases crossed
        exact begun
    exact { kept with }

theorem WriterSound.skipReadBytes {count : Nat} {result : Errorable Nat} (sound : WriterSound s)
    (ran : s.skipReadBytes count = .ok (result, after)) : WriterSound after := by
  unfold ByteBufferImpl.skipReadBytes at ran
  split at ran
  · cases ran
    exact sound
  · obtain ⟨⟨final, left⟩, looped, ran⟩ := returns_of_bind ran
    obtain ⟨refreshed, refresh, same⟩ := returns_of_bind ran
    cases same
    have kept := (while_ok (fun state => WriterSound state.1) (by
      rintro ⟨s, count⟩ next sound - stepped
      obtain ⟨popped, pop, same⟩ := returns_of_bind stepped
      cases same
      exact sound.popBuffer pop) (show WriterSound _ from { sound with }) looped).1
    exact (kept.moved left _).tryRefreshReaderBuffer refresh

/-! ### Buffers as they are obtained -/

theorem readArrayOf_some {source left buffer : ByteBufferImpl} {fresh : Block UInt8} {heap : Nat → Block UInt8}
    {length : UInt32} (ran : source.readArrayOf fresh heap length = .ok (successErrorable (some buffer), left)) :
    ∃ cells, buffer = ofArray heap cells length.toNat := by
  obtain ⟨⟨bytes, array, rest⟩, -, ran⟩ := returns_of_bind ran
  simp only at ran
  split at ran
  · cases ran
  · cases ran
    exact ⟨array.cells, rfl⟩

theorem Obtained.writerSound (obtained : Obtained s) : WriterSound s := by
  induction obtained with
  | new heap positive => exact writerSound_new heap _
  | byteArray ran =>
    obtain ⟨⟨length, rest⟩, -, ran⟩ := returns_of_bind ran
    simp only at ran
    split at ran
    · cases ran
    · obtain ⟨cells, rfl⟩ := readArrayOf_some ran
      exact writerSound_ofArray _ cells _
  | byteArrayWithin ran =>
    obtain ⟨⟨length, rest⟩, -, ran⟩ := returns_of_bind ran
    simp only at ran
    split at ran
    · cases ran
    · split at ran
      · cases ran
      · obtain ⟨cells, rfl⟩ := readArrayOf_some ran
        exact writerSound_ofArray _ cells _
  | byteWritten _ ran sound => exact sound.writeByte ran
  | written _ ran sound => exact sound.written ran
  | deleted _ ran sound => exact sound.writeBytesAndDelete ran
  | transferred _ ran sound => exact sound.writeBytesFrom ran
  | writeSkipped _ ran sound => exact sound.skipWriteBytes ran
  | writerReset _ sound => exact { sound with index := Nat.zero_le _ }
  | byteRead _ ran sound => exact sound.readByteUnsafe ran
  | read _ ran sound => exact sound.readBytes ran
  | readSkipped _ ran sound => exact sound.skipReadBytes ran
  | readerReset _ sound => exact { sound with }

/-- A write ends, inside of the segments, in every buffer but one made of an array that
was read with no bytes, and even there if nothing is written. -/
theorem write_ends_inside_iff (obtained : Obtained s) (input : List UInt8) :
    EndsInside s input ↔ 0 < s.singleCapacity ∨ input = [] :=
  obtained.writerSound.endsInside_iff input

/-- Seven bytes into segments of three. -/
theorem write_over_segments_ends : EndsInside (new (fun _ _ => 0) 3) [1, 2, 3, 4, 5, 6, 7] :=
  (write_ends_inside_iff (.new (fun _ _ => 0) (show 0 < 3 by omega)) [1, 2, 3, 4, 5, 6, 7]).mpr
    (.inl (show 0 < 3 by omega))

/-- A peer sends an array of no bytes. The write of one byte to the buffer made of it
fills segments of no bytes forever. -/
theorem write_to_empty_array_never_ends : ∃ source left buffer,
    (new (fun _ _ => 0) 4).writeBytes [0] = .ok source ∧
      source.readByteArray (fun _ => 0) (fun _ _ => 0) = .ok (successErrorable (some buffer), left) ∧
      Obtained buffer ∧ ¬ EndsInside buffer [7] ∧
      Returns (Writing.fillSegment [7] ⟨buffer.tryRefreshWriterBuffer, 1, 0⟩ 0) fun w =>
        ¬ Ends .endless (segmentRound [7]) w := by
  have sent : Returns ((new (fun _ _ => 0) 4).writeBytes [0]) fun source =>
      Returns (source.readByteArray (fun _ => 0) (fun _ _ => 0)) fun out =>
        ∃ cells, out.1 = successErrorable (some (ofArray (fun _ _ => 0) cells 0)) :=
    ⟨_, rfl, _, rfl, _, rfl⟩
  obtain ⟨source, wrote, ⟨_, left⟩, read, cells, rfl⟩ := sent
  refine ⟨source, left, _, wrote, read, .byteArray read, ?_, ?_⟩
  · rintro ⟨_, impossible, -⟩
    cases impossible
  · have sound := (writerSound_ofArray (fun _ _ => 0) cells 0).tryRefreshWriterBuffer
    refine (fillSegment_nothing sound rfl [7]).mono ?_
    rintro w ⟨sound, empty, size⟩
    exact never_ends sound empty (size ▸ Nat.one_pos)

end ShipNet.ByteBufferImpl
