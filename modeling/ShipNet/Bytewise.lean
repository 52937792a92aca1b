import Mathlib.Tactic.Ring
import ShipNet.ByteBuffer

/-! Bulk operations against their bytes one at a time. A bulk operation goes on to
the next segment as soon as one is used up, a single byte leaves that to the next
one: in the middle of an operation nothing tells the two apart. -/
namespace ShipNet.ByteBufferImpl
open Fallible

variable {s after : ByteBufferImpl} {bytes : List UInt8}

/-- `WriteByte` for each of the bytes. -/
def writeEach (s : ByteBufferImpl) : List UInt8 → Exec ByteBufferImpl
  | [] => pure s
  | input :: inputs => do
    let s ← s.writeByte input
    writeEach s inputs

/-- `ReadByteUnsafe`, this many times, and what the calls return. -/
def takeBytes (s : ByteBufferImpl) : Nat → Exec (List UInt8 × ByteBufferImpl)
  | 0 => pure ([], s)
  | count + 1 => do
    let (byte, s) ← s.readByteUnsafe
    let (bytes, s) ← takeBytes s count
    pure (byte :: bytes, s)

/-! ### Writes -/

theorem store_live (live : s.currentWriteBuffer ∉ s.freed) {offset : Nat} {input : List UInt8}
    (fits : offset + input.length ≤ s.singleCapacity) :
    s.store offset input = .ok { s with
      heap := Function.update s.heap s.currentWriteBuffer
        ((s.heap s.currentWriteBuffer).write offset input) } := by
  rw [store, if_neg live, if_neg (Nat.not_lt.mpr fits), pure_is_ok]

theorem store_freed (freed : s.currentWriteBuffer ∈ s.freed) (offset : Nat) (input : List UInt8) :
    s.store offset input = .error .freedSegment := by
  rw [store, if_pos freed, throw_is_error]

theorem tryRefreshWriterBuffer_room (room : s.localWriterIndex < s.singleCapacity) :
    s.tryRefreshWriterBuffer = s := by
  rw [tryRefreshWriterBuffer, if_neg (Nat.not_le.mpr room)]

theorem tryRefreshWriterBuffer_full (full : s.singleCapacity ≤ s.localWriterIndex) :
    s.tryRefreshWriterBuffer = s.appendBuffer := by
  rw [tryRefreshWriterBuffer, if_pos full]

/-- A write of nothing still refreshes the segment. -/
theorem writeBytes_none (live : s.tryRefreshWriterBuffer.currentWriteBuffer ∉ s.tryRefreshWriterBuffer.freed)
    (inside : s.tryRefreshWriterBuffer.localWriterIndex ≤ s.tryRefreshWriterBuffer.singleCapacity) :
    s.writeBytes [] = .ok s.tryRefreshWriterBuffer := by
  have stored := store_live live
    (show s.tryRefreshWriterBuffer.localWriterIndex + [].length ≤ s.tryRefreshWriterBuffer.singleCapacity from inside)
  simp only [writeBytes, Writing.crossSegments, List.length_nil, Nat.add_zero, gt_iff_lt,
    if_neg (Nat.not_lt.mpr inside), pure_is_ok, ok_bind, List.drop_nil, List.take_nil, stored, Block.write_nil,
    Function.update_eq_self]

theorem tryRefreshWriterBuffer_idem (positive : 0 < s.singleCapacity) :
    s.tryRefreshWriterBuffer.tryRefreshWriterBuffer = s.tryRefreshWriterBuffer := by
  by_cases full : s.singleCapacity ≤ s.localWriterIndex
  · rw [tryRefreshWriterBuffer_full full, tryRefreshWriterBuffer_room positive]
  · rw [tryRefreshWriterBuffer_room (Nat.lt_of_not_le full), tryRefreshWriterBuffer_room (Nat.lt_of_not_le full)]

theorem writeEach_append (first second : List UInt8) (s : ByteBufferImpl) :
    s.writeEach (first ++ second) = s.writeEach first >>= (writeEach · second) := by
  induction first generalizing s with
  | nil => rfl
  | cons input inputs ih =>
    simp only [List.cons_append, writeEach]
    cases s.writeByte input with
    | error fault => rfl
    | ok after => exact ih after

/-- Bytes that all fit behind the writer's index are one copy. -/
theorem writeEach_within {input : UInt8} {inputs : List UInt8}
    (fits : s.localWriterIndex + (input :: inputs).length ≤ s.singleCapacity) :
    s.writeEach (input :: inputs) = (do
      let after ← s.store s.localWriterIndex (input :: inputs)
      pure { after with
        readableBytes := after.readableBytes + (input :: inputs).length
        localWriterIndex := after.localWriterIndex + (input :: inputs).length }) := by
  induction inputs generalizing s input with
  | nil =>
    rw [writeEach, writeByte, tryRefreshWriterBuffer_room fits]
    cases s.store s.localWriterIndex [input] with
    | error fault => rfl
    | ok after => rfl
  | cons next inputs ih =>
    rw [List.length_cons] at fits
    have first : s.localWriterIndex + [input].length ≤ s.singleCapacity := by
      simp only [List.length_singleton]
      omega
    have refreshed := tryRefreshWriterBuffer_room first
    by_cases live : s.currentWriteBuffer ∈ s.freed
    · simp only [writeEach, writeByte, refreshed, store_freed live, error_bind]
    · rw [writeEach, writeByte, refreshed, store_live live first, store_live live (by simpa using fits)]
      simp only [ok_bind, pure_is_ok]
      rw [ih (by simp only; omega), store_live (by exact live) (by simp only; omega)]
      have joined := Block.write_append (s.heap s.currentWriteBuffer) s.localWriterIndex [input] (next :: inputs)
      simp only [List.length_singleton, List.singleton_append] at joined
      simp only [ok_bind, pure_is_ok, Function.update_self, Function.update_idem, joined, List.length_cons,
        Nat.add_assoc, Nat.add_comm 1]

/-- The first byte does a refresh of its own. -/
theorem writeEach_refreshed (positive : 0 < s.singleCapacity) {inputs : List UInt8} (more : inputs ≠ []) :
    s.tryRefreshWriterBuffer.writeEach inputs = s.writeEach inputs := by
  cases inputs with
  | nil => exact absurd rfl more
  | cons input inputs => rw [writeEach, writeEach, writeByte, writeByte, tryRefreshWriterBuffer_idem positive]

/-- A write with bytes left to copy, `size` of them from `bytesIndex` on. -/
private structure Filling (input : List UInt8) (w : Writing) : Prop where
  positive : 0 < w.buffer.singleCapacity
  rest : w.bytesIndex + w.size = input.length
  more : 0 < w.size

/-- The bytes that a write still has to copy, one at a time. -/
private def Writing.each (input : List UInt8) (w : Writing) : Exec ByteBufferImpl :=
  w.buffer.writeEach (input.drop w.bytesIndex)

/-- The segment that is appended early is the one that the next byte would append. -/
private theorem Filling.fillSegment {input : List UInt8} {w : Writing} (state : Filling input w) {copied : Nat}
    (full : w.buffer.localWriterIndex + copied = w.buffer.singleCapacity) (some : 0 < copied) (part : copied < w.size) :
    (w.fillSegment input copied >>= Writing.each input) = w.each input ∧
      ∀ next, w.fillSegment input copied = .ok next →
        Filling input next ∧ next.buffer.localWriterIndex = 0 ∧ next.size < w.size := by
  obtain ⟨positive, rest, -⟩ := state
  have length : ((input.drop w.bytesIndex).take copied).length = copied := by
    rw [List.length_take, List.length_drop]
    omega
  have later : input.drop (w.bytesIndex + copied) ≠ [] := by
    refine List.ne_nil_of_length_pos ?_
    rw [List.length_drop]
    omega
  have each : w.each input = w.buffer.writeEach ((input.drop w.bytesIndex).take copied) >>=
      (writeEach · (input.drop (w.bytesIndex + copied))) := by
    rw [← writeEach_append, ← List.drop_drop, List.take_append_drop]
    rfl
  have fits : w.buffer.localWriterIndex + ((input.drop w.bytesIndex).take copied).length ≤
      w.buffer.singleCapacity := by omega
  rw [each]
  unfold Writing.fillSegment
  generalize (input.drop w.bytesIndex).take copied = first at length fits
  cases first with
  | nil => exact absurd length (Nat.ne_of_lt some)
  | cons byte bytes =>
    rw [writeEach_within fits, length]
    by_cases live : w.buffer.currentWriteBuffer ∈ w.buffer.freed
    · rw [store_freed live]
      refine ⟨rfl, ?_⟩
      rintro next ⟨⟩
    · rw [store_live live fits]
      simp only [ok_bind, pure_is_ok]
      refine ⟨?_, ?_⟩
      · refine Eq.trans ?_ (writeEach_refreshed (by exact positive) later)
        rw [tryRefreshWriterBuffer_full (by exact Nat.le_of_eq full.symm)]
        rfl
      · rintro next ⟨⟩
        exact ⟨⟨positive, by simp only; omega, by simp only; omega⟩, rfl, by simp only; omega⟩

/-- The last copy, of bytes that all fit. -/
private def Writing.finish (input : List UInt8) (w : Writing) : Exec ByteBufferImpl := do
  let s ← w.buffer.store w.buffer.localWriterIndex ((input.drop w.bytesIndex).take w.size)
  pure { s with
    localWriterIndex := s.localWriterIndex + w.size
    readableBytes := s.readableBytes + w.size }

private theorem Filling.finish {input : List UInt8} {w : Writing} (state : Filling input w)
    (fits : w.buffer.localWriterIndex + w.size ≤ w.buffer.singleCapacity) : w.finish input = w.each input := by
  obtain ⟨-, rest, more⟩ := state
  have length : (input.drop w.bytesIndex).length = w.size := by
    rw [List.length_drop]
    omega
  have whole : (input.drop w.bytesIndex).take w.size = input.drop w.bytesIndex :=
    List.take_of_length_le (Nat.le_of_eq length)
  rw [Writing.finish, Writing.each, whole]
  generalize input.drop w.bytesIndex = bytes at length
  cases bytes with
  | nil => exact absurd length (Nat.ne_of_lt more)
  | cons byte bytes => rw [writeEach_within (by rw [length]; exact fits), length]

private theorem Filling.wholeSegments {input : List UInt8} {w : Writing} (state : Filling input w)
    (start : w.buffer.localWriterIndex = 0) :
    (w.wholeSegments input >>= Writing.finish input) = w.each input := by
  refine while_bind (fun w => Filling input w ∧ w.buffer.localWriterIndex = 0) (fun w => w.size) ?_ ?_
    ⟨state, start⟩ (Nat.lt_succ_self _)
  · rintro w ⟨state, start⟩ more
    simp only [gt_iff_lt, decide_eq_true_eq] at more
    obtain ⟨same, next⟩ := state.fillSegment (by rw [start, Nat.zero_add]) state.positive more
    refine ⟨same, ?_⟩
    intro after ran
    obtain ⟨kept, index, fewer⟩ := next after ran
    exact ⟨⟨kept, index⟩, fewer⟩
  · rintro w ⟨state, start⟩ done
    simp only [gt_iff_lt, decide_eq_false_iff_not, Nat.not_lt] at done
    exact state.finish (by rw [start, Nat.zero_add]; exact done)

/-- `WriteBytes` does what as many calls of `WriteByte` do, unless there is nothing to write. -/
theorem writeBytes_eq_writeEach (positive : 0 < s.singleCapacity) {input : List UInt8} (more : input ≠ []) :
    s.writeBytes input = s.writeEach input := by
  have sameCapacity : s.tryRefreshWriterBuffer.singleCapacity = s.singleCapacity := by
    unfold tryRefreshWriterBuffer
    split
    · rfl
    · rfl
  have state : Filling input ⟨s.tryRefreshWriterBuffer, input.length, 0⟩ :=
    ⟨by rw [sameCapacity]; exact positive, Nat.zero_add _, List.length_pos_iff.mpr more⟩
  have room : s.tryRefreshWriterBuffer.localWriterIndex < s.tryRefreshWriterBuffer.singleCapacity := by
    rw [sameCapacity]
    unfold tryRefreshWriterBuffer
    split
    · exact positive
    · rename_i inside
      exact Nat.lt_of_not_le inside
  have crossed : (Writing.crossSegments input ⟨s.tryRefreshWriterBuffer, input.length, 0⟩ >>= Writing.finish input) =
      s.writeEach input := by
    rw [← writeEach_refreshed positive more]
    unfold Writing.crossSegments
    split
    · rename_i crosses
      simp only at crosses
      obtain ⟨same, next⟩ := state.fillSegment (Nat.add_sub_of_le (Nat.le_of_lt room)) (Nat.sub_pos_of_lt room)
        (by simp only; omega)
      refine Eq.trans ?_ same
      cases ran : Writing.fillSegment input ⟨s.tryRefreshWriterBuffer, input.length, 0⟩
          (s.tryRefreshWriterBuffer.singleCapacity - s.tryRefreshWriterBuffer.localWriterIndex) with
      | error fault => rfl
      | ok after =>
        obtain ⟨kept, start, -⟩ := next after ran
        exact kept.wholeSegments start
    · rename_i within
      exact state.finish (Nat.le_of_not_lt within)
  exact crossed

/-- The count of readable bytes has no part in where a byte goes. -/
theorem writeByte_counts {input : UInt8} (ran : s.writeByte input = .ok after) (readable : Nat) :
    writeByte { s with readableBytes := readable } input = .ok { after with readableBytes := readable + 1 } := by
  have refreshed : tryRefreshWriterBuffer { s with readableBytes := readable } =
      { s.tryRefreshWriterBuffer with readableBytes := readable } := by
    unfold tryRefreshWriterBuffer
    split
    · rfl
    · rfl
  unfold writeByte at ran ⊢
  rw [refreshed]
  generalize s.tryRefreshWriterBuffer = current at ran
  simp only [store] at ran ⊢
  split at ran
  · cases ran
  · split at ran
    · cases ran
    · rename_i live fits
      rw [if_neg live, if_neg fits]
      simp only [pure_is_ok, ok_bind, Except.ok.injEq] at ran ⊢
      rw [← ran]

theorem writeEach_counts {input : List UInt8} (ran : s.writeEach input = .ok after) (readable : Nat) :
    writeEach { s with readableBytes := readable } input =
      .ok { after with readableBytes := readable + input.length } := by
  induction input generalizing s readable with
  | nil =>
    cases ran
    rfl
  | cons first later ih =>
    obtain ⟨mid, wrote, rest⟩ := returns_of_bind ran
    rw [writeEach, writeByte_counts wrote, ok_bind, ih rest, List.length_cons, Nat.add_assoc, Nat.add_comm 1]

/-! ### Reads -/

theorem fetch_live (live : s.currentReadBuffer ∉ s.freed) {offset count : Nat}
    (fits : offset + count ≤ s.singleCapacity) :
    s.fetch offset count = .ok ((s.heap s.currentReadBuffer).read offset count) := by
  rw [fetch, if_neg live, if_neg (Nat.not_lt.mpr fits), pure_is_ok]

theorem fetch_freed (freed : s.currentReadBuffer ∈ s.freed) (offset count : Nat) :
    s.fetch offset count = .error .freedSegment := by
  rw [fetch, if_pos freed, throw_is_error]

theorem tryRefreshReaderBuffer_room (room : s.localReaderIndex < s.singleCapacity) :
    s.tryRefreshReaderBuffer = .ok s := by
  rw [tryRefreshReaderBuffer, if_neg (Nat.not_le.mpr room), pure_is_ok]

theorem tryRefreshReaderBuffer_full (full : s.singleCapacity ≤ s.localReaderIndex) :
    s.tryRefreshReaderBuffer = s.popBuffer := by
  rw [tryRefreshReaderBuffer, if_pos full]

/-- A read of nothing does no more than refresh the segment. -/
theorem readBytes_none (refresh : s.tryRefreshReaderBuffer = .ok after)
    (live : after.currentReadBuffer ∉ after.freed) (inside : after.localReaderIndex ≤ after.singleCapacity)
    (output : OutputArray) : s.readBytes output 0 = .ok (successErrorable [], output, after) := by
  have fetched := fetch_live live (show after.localReaderIndex + 0 ≤ after.singleCapacity from inside)
  have stored : output.store 0 [] = .ok output := by
    rw [OutputArray.store, if_neg (show ¬ output.size < 0 + [].length from Nat.not_lt_zero _), Block.write_nil,
      pure_is_ok]
  simp only [readBytes, if_neg (Nat.not_lt_zero _), refresh, ok_bind, Reading.crossSegments, gt_iff_lt,
    if_neg (Nat.not_lt.mpr inside), pure_is_ok, fetched, Block.read_zero, UInt32.toNat_zero, stored, Nat.add_zero,
    Nat.sub_zero]

theorem popBuffer_shape (popped : s.popBuffer = .ok after) :
    after.localReaderIndex = 0 ∧ after.singleCapacity = s.singleCapacity ∧
      after.buffers.length + 1 = s.buffers.length ∧ 0 < after.buffers.length := by
  unfold popBuffer at popped
  split at popped
  · rename_i front next rest split
    cases popped
    exact ⟨rfl, rfl, by rw [split]; rfl, Nat.succ_pos _⟩
  · cases popped

/-- `PopBuffer` assigns the index. -/
theorem popBuffer_index (s : ByteBufferImpl) (index : Nat) :
    popBuffer { s with localReaderIndex := index } = s.popBuffer := by
  unfold popBuffer
  split
  · rename_i front next rest split
    simp only at split
    rw [split]
  · rfl

/-- The count of readable bytes has no part in it. -/
theorem popBuffer_counts (s : ByteBufferImpl) (readable : Nat) :
    popBuffer { s with readableBytes := readable } =
      s.popBuffer.map fun popped => { popped with readableBytes := readable } := by
  unfold popBuffer
  split
  · rename_i front next rest split
    simp only at split
    rw [split]
    rfl
  · rfl

/-- Nor has it a part in what a read finds. -/
theorem readByteUnsafe_counts {out : UInt8 × ByteBufferImpl} (ran : s.readByteUnsafe = .ok out) (readable : Nat) :
    readByteUnsafe { s with readableBytes := readable } =
      .ok (out.1, { out.2 with readableBytes := readable - 1 }) := by
  obtain ⟨refreshed, refresh, fetches⟩ := returns_of_bind ran
  obtain ⟨contents, fetched, moved⟩ := returns_of_bind fetches
  have counted : tryRefreshReaderBuffer { s with readableBytes := readable } =
      .ok { refreshed with readableBytes := readable } := by
    unfold tryRefreshReaderBuffer at refresh ⊢
    split at refresh
    · rename_i full
      rw [if_pos (show s.localReaderIndex ≥ s.singleCapacity from full)]
      have pops := popBuffer_counts s readable
      rw [refresh] at pops
      exact pops
    · rename_i within
      rw [if_neg (show ¬ s.localReaderIndex ≥ s.singleCapacity from within)]
      cases refresh
      rfl
  have sameContents : fetch { refreshed with readableBytes := readable } refreshed.localReaderIndex 1 = .ok contents :=
    fetched
  cases moved
  simp only [readByteUnsafe, counted, sameContents, ok_bind, pure_is_ok]

/-- Bytes taken are one that is read, and the others. -/
theorem takeBytes_succ {count : Nat} (took : s.takeBytes (count + 1) = .ok (bytes, after)) :
    ∃ byte mid others, s.readByteUnsafe = .ok (byte, mid) ∧ mid.takeBytes count = .ok (others, after) ∧
      bytes = byte :: others := by
  obtain ⟨⟨byte, mid⟩, first, later⟩ := returns_of_bind took
  obtain ⟨⟨others, final⟩, taken, joined⟩ := returns_of_bind later
  cases joined
  exact ⟨byte, mid, others, first, taken, rfl⟩

theorem takeBytes_counts {count : Nat} (took : s.takeBytes count = .ok (bytes, after)) (readable : Nat) :
    takeBytes { s with readableBytes := readable } count =
      .ok (bytes, { after with readableBytes := readable - count }) := by
  induction count generalizing s bytes readable with
  | zero =>
    cases took
    rfl
  | succ count ih =>
    obtain ⟨byte, mid, others, first, later, rfl⟩ := takeBytes_succ took
    simp only [takeBytes, readByteUnsafe_counts first, ih later, ok_bind, pure_is_ok, Nat.sub_sub, Nat.add_comm 1]

theorem takeBytes_add (first later : Nat) (s : ByteBufferImpl) :
    s.takeBytes (first + later) = (do
      let (bytes, s) ← s.takeBytes first
      let (others, s) ← s.takeBytes later
      pure (bytes ++ others, s)) := by
  induction first generalizing s with
  | zero =>
    simp only [Nat.zero_add, takeBytes, pure_is_ok, ok_bind]
    cases s.takeBytes later with
    | error fault => rfl
    | ok out => rfl
  | succ first ih =>
    rw [Nat.succ_add, takeBytes, takeBytes]
    cases s.readByteUnsafe with
    | error fault => rfl
    | ok out =>
      simp only [ok_bind, ih]
      cases takeBytes out.2 first with
      | error fault => rfl
      | ok next =>
        simp only [ok_bind, pure_is_ok]
        cases takeBytes next.2 later with
        | error fault => rfl
        | ok final => rfl

theorem takeBytes_length {count : Nat} (took : s.takeBytes count = .ok (bytes, after)) : bytes.length = count := by
  induction count generalizing s bytes with
  | zero =>
    cases took
    rfl
  | succ count ih =>
    obtain ⟨byte, mid, others, -, later, rfl⟩ := takeBytes_succ took
    rw [List.length_cons, ih later]

/-- Bytes taken are bytes taken first, and the rest of them. -/
theorem takeBytes_split {first later : Nat} (took : s.takeBytes (first + later) = .ok (bytes, after)) :
    ∃ mid, s.takeBytes first = .ok (bytes.take first, mid) ∧ mid.takeBytes later = .ok (bytes.drop first, after) := by
  rw [takeBytes_add] at took
  obtain ⟨⟨front, mid⟩, tookFirst, rest⟩ := returns_of_bind took
  obtain ⟨⟨back, final⟩, tookLater, joined⟩ := returns_of_bind rest
  cases joined
  have length := takeBytes_length tookFirst
  exact ⟨mid, by rwa [List.take_left' length], by rwa [List.drop_left' length]⟩

/-- Bytes that all stand behind the reader's index in its segment are one copy. -/
theorem takeBytes_within {count : Nat} (positive : 0 < count) (fits : s.localReaderIndex + count ≤ s.singleCapacity) :
    s.takeBytes count = (do
      let bytes ← s.fetch s.localReaderIndex count
      pure (bytes, { s with
        localReaderIndex := s.localReaderIndex + count
        readableBytes := s.readableBytes - count })) := by
  induction count generalizing s with
  | zero => cases positive
  | succ count ih =>
    have room : s.localReaderIndex < s.singleCapacity := by omega
    rw [takeBytes, readByteUnsafe, tryRefreshReaderBuffer_room room, ok_bind]
    by_cases live : s.currentReadBuffer ∈ s.freed
    · rw [fetch_freed live, fetch_freed live]
      rfl
    · rw [fetch_live live room, fetch_live live fits, Nat.add_comm count 1, Block.read_add, Block.read_one]
      simp only [ok_bind, pure_is_ok, List.headD_cons]
      cases count with
      | zero => rfl
      | succ count =>
        rw [ih (Nat.succ_pos count) (by simp only; omega), fetch_live (by exact live) (by simp only; omega)]
        simp only [ok_bind, pure_is_ok, List.singleton_append, Nat.add_assoc, Nat.sub_sub]

/-- The first byte does a refresh of its own. -/
theorem takeBytes_refreshed (positive : 0 < s.singleCapacity) {count : Nat} (more : 0 < count) :
    (s.tryRefreshReaderBuffer >>= (takeBytes · count)) = s.takeBytes count := by
  by_cases full : s.singleCapacity ≤ s.localReaderIndex
  · cases count with
    | zero => cases more
    | succ count =>
      rw [takeBytes, readByteUnsafe, tryRefreshReaderBuffer_full full]
      cases popped : s.popBuffer with
      | error fault => rfl
      | ok after =>
        obtain ⟨index, capacity, -⟩ := popBuffer_shape popped
        rw [ok_bind, takeBytes, readByteUnsafe, tryRefreshReaderBuffer_room (by rw [index, capacity]; exact positive)]
  · rw [tryRefreshReaderBuffer_room (Nat.lt_of_not_le full)]
    rfl

/-- Where the last of the pieces starts, into which segments cut a read of `size` bytes. -/
def lastPieceOffset (s : ByteBufferImpl) (size : Nat) : Nat :=
  size - ((s.localReaderIndex + size - 1) % s.singleCapacity + 1)

/-- A read of `size` bytes on its way to a buffer `after` it, all of the bytes being
`bytes`. `bytesIndex` has wrapped; the array is as it was behind what is copied, and
as it should be in front of that, as long as `bytesIndex` has not wrapped. -/
private structure Following (s after : ByteBufferImpl) (bytes : List UInt8) (output : OutputArray) (size : Nat)
    (r : Reading) : Prop where
  took : r.buffer.takeBytes r.size = .ok (bytes.drop (size - r.size), after)
  capacity : r.buffer.singleCapacity = s.singleCapacity
  more : 0 < r.size
  left : r.size ≤ size
  index : r.bytesIndex.toNat = (size - r.size) % 2 ^ 32
  start : r.size = size ∨ r.buffer.localReaderIndex = 0
  aligned : (s.localReaderIndex + (size - r.size)) % s.singleCapacity = r.buffer.localReaderIndex % s.singleCapacity
  sameSize : r.output.size = output.size
  copied : size - r.size < 2 ^ 32 → r.output.cells = output.cells.write 0 (bytes.take (size - r.size))
  beyond : ∀ index, size - r.size ≤ index → r.output.cells index = output.cells index

private theorem Following.store {output : OutputArray} {size : Nat} {r : Reading}
    (state : Following s after bytes output size r) (length : bytes.length = size) (room : size ≤ output.size)
    {count : Nat} (part : count ≤ r.size) :
    Returns (r.output.store r.bytesIndex.toNat ((bytes.drop (size - r.size)).take count)) fun filled =>
      filled.size = output.size ∧
      (size - r.size < 2 ^ 32 → filled.cells = output.cells.write 0 (bytes.take (size - r.size + count))) ∧
      ∀ index, size - r.size ≤ index → r.bytesIndex.toNat + count ≤ index →
        filled.cells index = output.cells index := by
  have left := state.left
  have index := state.index
  have sameSize := state.sameSize
  have pieceLength : ((bytes.drop (size - r.size)).take count).length = count := by
    rw [List.length_take, List.length_drop]
    omega
  rw [OutputArray.store, if_neg (by rw [pieceLength]; omega), pure_is_ok, returns_ok]
  refine ⟨sameSize, ?_, ?_⟩
  · intro narrow
    have frontLength : (bytes.take (size - r.size)).length = size - r.size := by
      rw [List.length_take]
      omega
    have joined := Block.write_append output.cells 0 (bytes.take (size - r.size))
      ((bytes.drop (size - r.size)).take count)
    rw [frontLength, Nat.zero_add] at joined
    simp only [state.copied narrow, index, Nat.mod_eq_of_lt narrow, joined, List.take_add]
  · intro position behind past
    exact (Block.write_past _ (by rw [pieceLength]; exact past)).trans (state.beyond position behind)

/-- The segment that is popped early is the one that the next byte would pop. -/
private theorem Following.drainSegment {output : OutputArray} {size : Nat} {r : Reading}
    (state : Following s after bytes output size r) (length : bytes.length = size) (room : size ≤ output.size)
    {count : Nat} (edge : r.buffer.localReaderIndex + count = r.buffer.singleCapacity) (some : 0 < count)
    (part : count < r.size) :
    Returns (r.drainSegment count) fun next =>
      Following s after bytes output size next ∧ next.buffer.localReaderIndex = 0 ∧
        next.buffer.buffers.length < r.buffer.buffers.length := by
  have left := state.left
  have index := state.index
  have sum : count + (r.size - count) = r.size := Nat.add_sub_of_le (Nat.le_of_lt part)
  have passed : size - (r.size - count) = size - r.size + count := by omega
  have took : r.buffer.takeBytes (count + (r.size - count)) = .ok (bytes.drop (size - r.size), after) := by
    rw [sum]
    exact state.took
  obtain ⟨mid, tookFirst, tookLater⟩ := takeBytes_split took
  rw [takeBytes_within some (Nat.le_of_eq edge)] at tookFirst
  obtain ⟨piece, fetched, moved⟩ := returns_of_bind tookFirst
  simp only [pure_is_ok, Except.ok.injEq, Prod.mk.injEq] at moved
  obtain ⟨rfl, rfl⟩ := moved
  rw [← takeBytes_refreshed (by simp only; omega) (Nat.sub_pos_of_lt part),
    tryRefreshReaderBuffer_full (Nat.le_of_eq edge.symm), ← popBuffer_index _ 0] at tookLater
  obtain ⟨popped, pops, tookLater⟩ := returns_of_bind tookLater
  obtain ⟨start, capacity, fewer, -⟩ := popBuffer_shape pops
  unfold Reading.drainSegment
  rw [fetched, ok_bind]
  refine (state.store length room (Nat.le_of_lt part)).bind ?_
  rintro filled ⟨sameSize, copied, beyond⟩
  simp only at pops
  rw [pops, ok_bind]
  refine (returns_ok _ _).mpr ⟨?_, start, by simp only at fewer ⊢; omega⟩
  constructor
  · simpa only [passed, List.drop_drop] using tookLater
  · exact capacity.trans state.capacity
  · exact Nat.sub_pos_of_lt part
  · exact Nat.le_trans (Nat.sub_le _ _) left
  · rw [UInt32.toNat_add, index, UInt32.toNat_ofNat', passed]
    exact (Nat.add_mod _ _ _).symm
  · exact .inr start
  · rw [passed, ← Nat.add_assoc, Nat.add_mod, state.aligned, ← Nat.add_mod, edge, state.capacity, start,
      Nat.mod_self, Nat.zero_mod]
  · exact sameSize
  · simp only [passed]
    exact fun narrow => copied (by omega)
  · simp only [passed]
    exact fun position behind => beyond position (by omega) (by
      have wrapped := Nat.mod_le (size - r.size) (2 ^ 32)
      omega)

private theorem Following.wholeSegments {output : OutputArray} {size : Nat} {r : Reading}
    (state : Following s after bytes output size r) (length : bytes.length = size) (room : size ≤ output.size)
    (positive : 0 < s.singleCapacity) (start : r.buffer.localReaderIndex = 0) :
    Returns r.wholeSegments fun final =>
      Following s after bytes output size final ∧
        final.buffer.localReaderIndex + final.size ≤ final.buffer.singleCapacity := by
  refine (while_returns
    (fun r : Reading => Following s after bytes output size r ∧ r.buffer.localReaderIndex = 0)
    (fun r => r.buffer.buffers.length) ?_ ⟨state, start⟩ (Nat.lt_succ_self _)).mono ?_
  · rintro r ⟨state, start⟩ more
    simp only [gt_iff_lt, decide_eq_true_eq] at more
    refine (state.drainSegment length room (by rw [start, Nat.zero_add]) (state.capacity ▸ positive) more).mono ?_
    rintro next ⟨state, start, fewer⟩
    exact ⟨⟨state, start⟩, fewer⟩
  · rintro final ⟨⟨state, start⟩, done⟩
    simp only [gt_iff_lt, decide_eq_false_iff_not, Nat.not_lt] at done
    exact ⟨state, by rw [start, Nat.zero_add]; exact done⟩

/-- What is left in the end is the last piece. -/
private theorem Following.last {output : OutputArray} {size : Nat} {r : Reading}
    (state : Following s after bytes output size r)
    (fits : r.buffer.localReaderIndex + r.size ≤ r.buffer.singleCapacity) : size - r.size = s.lastPieceOffset size := by
  have more := state.more
  have left := state.left
  have aligned := state.aligned
  rw [state.capacity] at fits
  have sum : s.localReaderIndex + size - 1 = s.localReaderIndex + (size - r.size) + (r.size - 1) := by omega
  have position : (s.localReaderIndex + size - 1) % s.singleCapacity = r.buffer.localReaderIndex + (r.size - 1) := by
    rw [sum, Nat.add_mod, aligned, ← Nat.add_mod, Nat.mod_eq_of_lt (by omega)]
  rw [lastPieceOffset, position]
  rcases state.start with whole | start
  · omega
  · omega

/-- All segments but the one of the last piece. -/
private theorem Following.crossSegments {output : OutputArray} {size : Nat} {r : Reading}
    (state : Following s after bytes output size r) (length : bytes.length = size) (room : size ≤ output.size)
    (positive : 0 < s.singleCapacity) (within : r.buffer.localReaderIndex < r.buffer.singleCapacity) :
    Returns r.crossSegments fun final =>
      Following s after bytes output size final ∧
        final.buffer.localReaderIndex + final.size ≤ final.buffer.singleCapacity := by
  unfold Reading.crossSegments
  split
  · rename_i crosses
    refine (state.drainSegment length room (by omega) (by omega) (by omega)).bind ?_
    rintro next ⟨state, start, -⟩
    exact state.wholeSegments length room positive start
  · rename_i fits
    exact (returns_ok _ _).mpr ⟨state, Nat.le_of_not_lt fits⟩

/-- A refresh leaves the reader inside a segment, at the same place of one. -/
theorem refreshed_shape {refreshed : ByteBufferImpl} (refresh : s.tryRefreshReaderBuffer = .ok refreshed)
    (positive : 0 < s.singleCapacity) (inside : s.localReaderIndex ≤ s.singleCapacity) :
    refreshed.singleCapacity = s.singleCapacity ∧ refreshed.localReaderIndex < s.singleCapacity ∧
      s.localReaderIndex % s.singleCapacity = refreshed.localReaderIndex % s.singleCapacity := by
  by_cases full : s.singleCapacity ≤ s.localReaderIndex
  · rw [tryRefreshReaderBuffer_full full] at refresh
    obtain ⟨start, capacity, -⟩ := popBuffer_shape refresh
    refine ⟨capacity, by rw [start]; exact positive, ?_⟩
    rw [Nat.le_antisymm inside full, start, Nat.mod_self, Nat.zero_mod]
  · rw [tryRefreshReaderBuffer_room (Nat.lt_of_not_le full)] at refresh
    cases refresh
    exact ⟨rfl, Nat.lt_of_not_le full, rfl⟩

/-- `ReadBytes` leads to the buffer to which as many calls of `ReadByteUnsafe` lead. It
fills the array with their bytes if the last piece starts in the range of `bytesIndex`,
and leaves the array's last cell as it was if not. -/
theorem readBytes_takes {count : Nat} (took : s.takeBytes count = .ok (bytes, after)) (positive : 0 < s.singleCapacity)
    (inside : s.localReaderIndex ≤ s.singleCapacity) (more : 0 < count) (enough : count ≤ s.readableBytes)
    (output : OutputArray) (room : count ≤ output.size) :
    Returns (s.readBytes output count) fun out =>
      out.1 = successErrorable (out.2.1.cells.read 0 count) ∧ out.2.2 = after ∧ out.2.1.size = output.size ∧
      (s.lastPieceOffset count < 2 ^ 32 → out.2.1.cells = output.cells.write 0 bytes) ∧
      (2 ^ 32 ≤ s.lastPieceOffset count → out.2.1.cells (count - 1) = output.cells (count - 1)) := by
  have length := takeBytes_length took
  rw [readBytes, if_neg (Nat.not_lt.mpr enough)]
  have tookRefreshed := took
  rw [← takeBytes_refreshed positive more] at tookRefreshed
  obtain ⟨refreshed, refresh, tookRefreshed⟩ := returns_of_bind tookRefreshed
  obtain ⟨capacity, within, aligned⟩ := refreshed_shape refresh positive inside
  have state : Following s after bytes output count ⟨refreshed, output, count, 0⟩ := by
    constructor
    · simpa using tookRefreshed
    · exact capacity
    · exact more
    · exact Nat.le_refl _
    · simp
    · exact .inl rfl
    · simpa using aligned
    · rfl
    · simp
    · exact fun _ _ => rfl
  rw [refresh, ok_bind]
  refine (state.crossSegments length room positive (capacity ▸ within)).bind ?_
  rintro r ⟨state, fits⟩
  have tookLast := state.took
  rw [takeBytes_within state.more fits] at tookLast
  have left := state.left
  have last := state.last fits
  obtain ⟨piece, fetched, moved⟩ := returns_of_bind tookLast
  simp only [pure_is_ok, Except.ok.injEq, Prod.mk.injEq] at moved
  obtain ⟨rfl, rfl⟩ := moved
  have whole : (bytes.drop (count - r.size)).take r.size = bytes.drop (count - r.size) :=
    List.take_of_length_le (by rw [List.length_drop]; omega)
  have stored := state.store length room (Nat.le_refl r.size)
  rw [whole] at stored
  rw [fetched, ok_bind]
  refine stored.bind ?_
  rintro filled ⟨sameSize, copied, beyond⟩
  refine (returns_ok _ _).mpr ⟨rfl, rfl, sameSize, ?_, ?_⟩
  · intro narrow
    rw [copied (by omega), Nat.sub_add_cancel left, List.take_of_length_le (Nat.le_of_eq length)]
  · intro wide
    have more := state.more
    have index := state.index
    exact beyond _ (by omega) (by omega)

theorem another_byte (byte : UInt8) : ∃ other, other ≠ byte := by
  by_cases zero : byte = 0
  · exact ⟨1, by rw [zero]; decide⟩
  · exact ⟨0, Ne.symm zero⟩

/-- Whatever the array holds before, a read returns `expected`: exactly if these are the
bytes and the last piece starts in the range of `bytesIndex`. -/
theorem readBytes_fills_iff {count : Nat} (took : s.takeBytes count = .ok (bytes, after))
    (positive : 0 < s.singleCapacity) (inside : s.localReaderIndex ≤ s.singleCapacity) (more : 0 < count)
    (enough : count ≤ s.readableBytes) (expected : List UInt8) :
    (∀ output : OutputArray, count ≤ output.size → ∃ filled final,
      s.readBytes output count = .ok (successErrorable expected, filled, final)) ↔
      s.lastPieceOffset count < 2 ^ 32 ∧ expected = bytes := by
  have length := takeBytes_length took
  have reads := readBytes_takes took positive inside more enough
  have filled_narrow (narrow : s.lastPieceOffset count < 2 ^ 32) (output : OutputArray) (room : count ≤ output.size) :
      ∃ filled final, s.readBytes output count = .ok (successErrorable bytes, filled, final) := by
    obtain ⟨⟨result, filled, final⟩, ran, same, -, -, copied, -⟩ := reads output room
    have read := Block.read_write_self output.cells 0 bytes
    rw [length, ← copied narrow] at read
    rw [read] at same
    exact ⟨filled, final, by rw [ran, ← same]⟩
  constructor
  · intro fills
    have narrow : s.lastPieceOffset count < 2 ^ 32 := by
      rw [← Nat.not_le]
      intro wide
      -- the last cell keeps what it held, which may be another byte than the last one expected
      obtain ⟨other, different⟩ := another_byte (expected.getLastD 0)
      obtain ⟨filled, final, ran⟩ := fills ⟨fun _ => other, count⟩ (Nat.le_refl count)
      obtain ⟨_, again, same, -, -, -, untouched⟩ := reads ⟨fun _ => other, count⟩ (Nat.le_refl count)
      cases ran.symm.trans again
      have cells : expected = filled.cells.read 0 count := congrArg Errorable.value same
      have joined := Block.read_add filled.cells 0 (count - 1) 1
      rw [Nat.sub_add_cancel more, Nat.zero_add, Block.read_one, untouched wide, ← cells] at joined
      exact different (by rw [joined, List.getLastD_concat])
    obtain ⟨filled, final, ran⟩ := fills ⟨fun _ => 0, count⟩ (Nat.le_refl count)
    obtain ⟨filled', final', again⟩ := filled_narrow narrow ⟨fun _ => 0, count⟩ (Nat.le_refl count)
    cases ran.symm.trans again
    exact ⟨narrow, rfl⟩
  · rintro ⟨narrow, rfl⟩ output room
    exact filled_narrow narrow output room

end ShipNet.ByteBufferImpl
