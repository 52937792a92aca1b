import ShipNet.Agreement
import ShipNet.ReachedBuffer

/-! `SkipReadBytes` against reads of one byte each. A skip pops a segment as soon as
it is read to its end, a read leaves that to the next one: no call tells the two
apart. A skip that starts behind the beginning of a segment and stays in it moves
the index back instead, which later calls do tell. -/
namespace ShipNet.ByteBufferImpl
open Fallible

variable {s other : ByteBufferImpl} {cap : Nat} {bytes : List UInt8}

/-- Reads of one byte, with the bytes discarded. -/
def readEach : Nat → ByteBufferImpl → Exec ByteBufferImpl
  | 0, s => pure s
  | count + 1, s => do
    let (_, s) ← s.readByte
    readEach count s

/-- A skip that asks for too much is refused and changes nothing. Any other is
served, and no calls tell the buffer after it from one that was read instead. -/
def SkipDiscards (s : ByteBufferImpl) (count : Nat) : Prop :=
  if count > s.readableBytes then
    ∃ result, s.skipReadBytes count = .ok (result, s) ∧ result.isSuccess = false
  else
    ∃ result skipped read, s.skipReadBytes count = .ok (result, skipped) ∧ result.isSuccess = true ∧
      skipped.buffers ≠ [] ∧ readEach count s = .ok read ∧
      ∀ operations, (Transition.run step skipped operations).map Prod.snd =
        (Transition.run step read operations).map Prod.snd

/-! ### A segment that is still to be popped -/

/-- `other` has read its first segment to the end, and `s` has popped it as well. -/
def Pending (other s : ByteBufferImpl) : Prop :=
  ∃ front next rest, other.buffers = front :: next :: rest ∧ other.currentWriteBuffer ≠ front ∧
    front < other.nextSegment ∧ other.singleCapacity ≤ other.localReaderIndex ∧ 0 < other.singleCapacity ∧
    s = { other with
      localReaderIndex := 0
      freed := front :: other.freed
      buffers := next :: rest
      currentReadBuffer := next }

theorem WellFormed.pending (held : other.WellFormed) (full : other.localReaderIndex = other.singleCapacity)
    (popped : other.popBuffer = .ok s) : Pending other s := by
  unfold popBuffer at popped
  split at popped
  · rename_i front next rest split
    rw [pure_is_ok, Except.ok.injEq] at popped
    have writer := held.writer
    have distinct := held.distinct
    rw [split] at writer distinct
    refine ⟨front, next, rest, split, ?_, ?_, Nat.le_of_eq full.symm, held.capacity, popped.symm⟩
    · have inRest : other.currentWriteBuffer ∈ next :: rest := by
        rw [List.getLast?_cons_cons] at writer
        exact List.mem_of_getLast? writer
      rintro rfl
      exact (List.nodup_cons.mp distinct).1 inRest
    · exact held.allocated front (by simp [split])
  · cases popped

theorem Pending.refresh (pending : Pending other s) :
    other.tryRefreshReaderBuffer = .ok s ∧ s.tryRefreshReaderBuffer = .ok s := by
  obtain ⟨front, next, rest, split, -, -, full, positive, rfl⟩ := pending
  constructor
  · rw [tryRefreshReaderBuffer, if_pos full, popBuffer, split]
    rfl
  · rw [tryRefreshReaderBuffer, if_neg (Nat.not_le.mpr positive)]
    rfl

theorem Pending.appendBuffer (pending : Pending other s) : Pending other.appendBuffer s.appendBuffer := by
  obtain ⟨front, next, rest, split, -, allocated, full, positive, rfl⟩ := pending
  refine ⟨front, next, rest ++ [other.nextSegment], ?_, ?_, ?_, full, positive, rfl⟩
  · simp [ByteBufferImpl.appendBuffer, split]
  · exact Ne.symm (Nat.ne_of_lt allocated)
  · exact Nat.lt_succ_of_lt allocated

theorem Pending.store (pending : Pending other s) (offset : Nat) (input : List UInt8) :
    Agree Pending (other.store offset input) (s.store offset input) := by
  obtain ⟨front, next, rest, split, apart, allocated, full, positive, rfl⟩ := pending
  have live : other.currentWriteBuffer ∈ front :: other.freed ↔ other.currentWriteBuffer ∈ other.freed := by
    simp [apart]
  simp only [ByteBufferImpl.store, live]
  split
  · rfl
  · split
    · rfl
    · exact ⟨front, next, rest, split, apart, allocated, full, positive, rfl⟩

/-- Counting written bytes has no part in it. -/
theorem Pending.written (pending : Pending other s) (count : Nat) :
    Pending
      { other with
        readableBytes := other.readableBytes + count
        localWriterIndex := other.localWriterIndex + count }
      { s with
        readableBytes := s.readableBytes + count
        localWriterIndex := s.localWriterIndex + count } := by
  obtain ⟨front, next, rest, split, apart, allocated, full, positive, rfl⟩ := pending
  exact ⟨front, next, rest, split, apart, allocated, full, positive, rfl⟩

/-- What both buffers have in common. -/
theorem Pending.same (pending : Pending other s) :
    other.singleCapacity = s.singleCapacity ∧ other.localWriterIndex = s.localWriterIndex ∧
      other.readableBytes = s.readableBytes := by
  obtain ⟨front, next, rest, -, -, -, -, -, rfl⟩ := pending
  exact ⟨rfl, rfl, rfl⟩

theorem Pending.tryRefreshWriterBuffer (pending : Pending other s) :
    Pending other.tryRefreshWriterBuffer s.tryRefreshWriterBuffer := by
  obtain ⟨capacity, writer, -⟩ := pending.same
  rw [ByteBufferImpl.tryRefreshWriterBuffer, ByteBufferImpl.tryRefreshWriterBuffer, capacity, writer]
  split
  · exact pending.appendBuffer
  · exact pending

theorem Pending.writeByte (pending : Pending other s) (input : UInt8) :
    Agree Pending (other.writeByte input) (s.writeByte input) := by
  have refreshed := pending.tryRefreshWriterBuffer
  obtain ⟨-, writer, -⟩ := refreshed.same
  unfold ByteBufferImpl.writeByte
  simp only [writer]
  exact (refreshed.store _ _).bind fun after partner kept => kept.written 1

/-- The locals of a write to both buffers. -/
private structure PendingWriting (w partner : Writing) : Prop where
  buffer : Pending w.buffer partner.buffer
  size : w.size = partner.size
  bytesIndex : w.bytesIndex = partner.bytesIndex

private theorem PendingWriting.fillSegment {w partner : Writing} (pending : PendingWriting w partner)
    (input : List UInt8) (copied : Nat) :
    Agree PendingWriting (w.fillSegment input copied) (partner.fillSegment input copied) := by
  obtain ⟨buffer, size, index⟩ := pending
  obtain ⟨-, writer, -⟩ := buffer.same
  unfold Writing.fillSegment
  rw [writer, index, size]
  refine (buffer.store _ _).bind fun after partner kept => ⟨?_, rfl, rfl⟩
  obtain ⟨front, next, rest, split, apart, allocated, full, positive, rfl⟩ := kept
  exact Pending.appendBuffer ⟨front, next, rest, split, apart, allocated, full, positive, rfl⟩

private theorem PendingWriting.wholeSegments {w partner : Writing} (pending : PendingWriting w partner)
    (input : List UInt8) : Agree PendingWriting (w.wholeSegments input) (partner.wholeSegments input) := by
  unfold Writing.wholeSegments
  rw [← pending.size]
  refine while_agree ?_ ?_ pending _
  · intro w partner held
    rw [held.size, held.buffer.same.1]
  · intro w partner held
    rw [← held.buffer.same.1]
    exact held.fillSegment input _

private theorem PendingWriting.crossSegments {w partner : Writing} (pending : PendingWriting w partner)
    (input : List UInt8) : Agree PendingWriting (w.crossSegments input) (partner.crossSegments input) := by
  obtain ⟨capacity, writer, -⟩ := pending.buffer.same
  unfold Writing.crossSegments
  rw [capacity, writer, pending.size]
  split
  · exact (pending.fillSegment input _).bind fun after partner kept => kept.wholeSegments input
  · exact pending

theorem Pending.writeBytes (pending : Pending other s) (input : List UInt8) :
    Agree Pending (other.writeBytes input) (s.writeBytes input) := by
  have refreshed := pending.tryRefreshWriterBuffer
  have locals : PendingWriting ⟨other.tryRefreshWriterBuffer, input.length, 0⟩
      ⟨s.tryRefreshWriterBuffer, input.length, 0⟩ := ⟨refreshed, rfl, rfl⟩
  unfold ByteBufferImpl.writeBytes
  refine (locals.crossSegments input).bind ?_
  rintro w partner ⟨buffer, size, index⟩
  rw [size, index, buffer.same.2.1]
  exact (buffer.store _ _).bind fun after partner kept => kept.written _

/-- The same buffer, or one that has popped a segment that the other still has. -/
def Lags (other s : ByteBufferImpl) : Prop := other = s ∨ Pending other s

theorem WellFormed.lags (held : other.WellFormed) (refresh : other.tryRefreshReaderBuffer = .ok s) : Lags other s := by
  by_cases full : other.singleCapacity ≤ other.localReaderIndex
  · rw [tryRefreshReaderBuffer_full full] at refresh
    exact .inr (held.pending (Nat.le_antisymm held.readerIndex full) refresh)
  · rw [tryRefreshReaderBuffer_room (Nat.lt_of_not_le full)] at refresh
    cases refresh
    exact .inl rfl

/-- No call tells apart whether a segment that is read to its end is popped yet. -/
theorem Lags.answer (lags : Lags other s) (operation : Operation) :
    Agree (fun out partner => Lags out.1 partner.1 ∧ out.2 = partner.2)
      (other.step operation) (s.step operation) := by
  rcases lags with rfl | pending
  · exact (Agree.refl _).mono fun out partner same => ⟨.inl (congrArg Prod.fst same), congrArg Prod.snd same⟩
  · obtain ⟨-, -, readable⟩ := pending.same
    obtain ⟨pops, stays⟩ := pending.refresh
    cases operation with
    | writeByte input => exact (pending.writeByte input).bind fun after partner kept => ⟨.inr kept, rfl⟩
    | writeBytes input => exact (pending.writeBytes input).bind fun after partner kept => ⟨.inr kept, rfl⟩
    | readByte =>
      simp only [ByteBufferImpl.step, readByte, readByteUnsafe, readable, pops, stays]
      split
      · exact ⟨.inr pending, rfl⟩
      · exact (Agree.refl _).mono fun out partner same => ⟨.inl (congrArg Prod.fst same), congrArg Prod.snd same⟩
    | readBytes output size =>
      simp only [ByteBufferImpl.step, readBytes, readable, pops, stays]
      split
      · exact ⟨.inr pending, rfl⟩
      · exact (Agree.refl _).mono fun out partner same => ⟨.inl (congrArg Prod.fst same), congrArg Prod.snd same⟩

theorem Lags.replies (lags : Lags other s) (operations : List Operation) :
    (Transition.run step other operations).map Prod.snd = (Transition.run step s operations).map Prod.snd :=
  ((run_agree (fun _ _ operation lags => lags.answer operation) lags operations).mono
    fun _ _ held => held.2).map_eq

/-! ### Reads one by one -/

theorem readEach_add (first later : Nat) (s : ByteBufferImpl) :
    readEach (first + later) s = readEach first s >>= readEach later := by
  induction first generalizing s with
  | zero => rw [Nat.zero_add, readEach, pure_is_ok, ok_bind]
  | succ first ih =>
    rw [Nat.succ_add, readEach, readEach]
    cases s.readByte with
    | error fault => rfl
    | ok out => exact ih out.2

/-- Within a segment reads move the index. -/
theorem readEach_within (held : Represents cap bytes s) {count : Nat}
    (inside : s.localReaderIndex + count ≤ cap) (enough : count ≤ bytes.length) :
    readEach count s = .ok { s with
      localReaderIndex := s.localReaderIndex + count
      readableBytes := s.readableBytes - count } := by
  induction count generalizing s bytes with
  | zero => rfl
  | succ count ih =>
    have readable : ¬ s.readableBytes < 1 := by
      rw [held.readable]
      omega
    have staying : s.tryRefreshReaderBuffer = .ok s := by
      rw [tryRefreshReaderBuffer, if_neg (by rw [held.capacity]; omega), pure_is_ok]
    have advanced := advance_represents held 1 (by omega) (by omega)
    have rest := ih advanced (by simp only; omega) (by rw [List.length_drop]; omega)
    simp only [readEach, readByte, if_neg readable, readByteUnsafe, staying, ok_bind,
      fetch_represents held 1 (by omega) (by omega), pure_is_ok]
    rw [rest]
    simp only [Nat.add_assoc, Nat.add_comm 1 count, Nat.sub_sub]

/-- The first read does the pop that is pending. -/
theorem Pending.readEach (pending : Pending other s) {count : Nat} (positive : 0 < count)
    (readable : 0 < other.readableBytes) : readEach count other = readEach count s := by
  obtain ⟨-, -, same⟩ := pending.same
  obtain ⟨pops, stays⟩ := pending.refresh
  cases count with
  | zero => cases positive
  | succ count =>
    have served : ¬ s.readableBytes < 1 := by omega
    simp only [ByteBufferImpl.readEach, readByte, readByteUnsafe, same, pops, stays, if_neg served]

/-! ### The loop of a skip -/

/-- Where the loop of a skip has come to: `last`, of which `rest` bytes are still to
be skipped, though they are no longer counted. -/
private structure Skipping (cap : Nat) (bytes : List UInt8) (s : ByteBufferImpl) (count : Nat)
    (last : ByteBufferImpl) (rest : Nat) (bytesLeft : List UInt8) : Prop where
  held : Represents cap bytesLeft last
  enough : rest ≤ bytesLeft.length
  passed : bytesLeft.length + count = bytes.length + rest
  writer : last.localWriterIndex = s.localWriterIndex
  started : rest = count ∧ last = s ∨ last.localReaderIndex = 0
  same : readEach count s = readEach rest last

private theorem Skipping.round {count rest : Nat} {last : ByteBufferImpl} {bytesLeft : List UInt8}
    (skipping : Skipping cap bytes s count last rest bytesLeft) (more : cap - last.localReaderIndex < rest) :
    Returns (popBuffer { last with readableBytes := last.readableBytes - rest }) fun after =>
      ∃ next bytesNext,
        Skipping cap bytes s count next (rest - (cap - last.localReaderIndex)) bytesNext ∧
        after = { next with readableBytes := next.readableBytes - (rest - (cap - last.localReaderIndex)) } ∧
        after.buffers.length < last.buffers.length := by
  obtain ⟨held, enough, passed, writer, -, same⟩ := skipping
  have index : last.localReaderIndex ≤ cap := held.capacity ▸ held.wellFormed.readerIndex
  have edge : last.localReaderIndex + (cap - last.localReaderIndex) = cap := by omega
  have readable := held.readable
  have ended := advance_represents held (cap - last.localReaderIndex) (Nat.le_of_eq edge) (by omega)
  have endedReads := readEach_within held (Nat.le_of_eq edge) (by omega)
  rw [edge] at ended endedReads
  generalize finished : { last with
    localReaderIndex := cap
    readableBytes := last.readableBytes - (cap - last.localReaderIndex) } = other at ended endedReads
  have full : other.localReaderIndex = cap := by rw [← finished]
  have counted : other.readableBytes = last.readableBytes - (cap - last.localReaderIndex) := by rw [← finished]
  have longer : 0 < (bytesLeft.drop (cap - last.localReaderIndex)).length := by
    rw [List.length_drop]
    omega
  obtain ⟨popped, pops, remaining, start, fewer⟩ := popBuffer_represents ended 0 other.localReaderIndex full
    (Nat.zero_le _) (another_segment ended (show other.localReaderIndex + 0 = cap from full) longer)
  have pops : other.popBuffer = .ok popped := pops
  have sum : (cap - last.localReaderIndex) + (rest - (cap - last.localReaderIndex)) = rest := by omega
  have pending := ended.wellFormed.pending (full.trans ended.capacity.symm) pops
  have leftOver : popped.readableBytes - (rest - (cap - last.localReaderIndex)) = last.readableBytes - rest := by
    rw [← pending.same.2.2, counted]
    omega
  refine ⟨{ popped with readableBytes := last.readableBytes - rest }, ?_, popped, _, ⟨remaining, ?_, ?_, ?_, ?_, ?_⟩,
    ?_, ?_⟩
  · have assigned := popBuffer_counts other (last.readableBytes - rest)
    rw [pops, ← popBuffer_index _ last.localReaderIndex, ← finished] at assigned
    exact assigned
  · rw [List.drop_zero, List.length_drop]
    omega
  · rw [List.drop_zero, List.length_drop]
    omega
  · rw [← writer, ← pending.same.2.1, ← finished]
  · exact .inr start
  · rw [same]
    conv_lhs => rw [← sum]
    rw [readEach_add, endedReads, ok_bind]
    exact pending.readEach (by omega) (by omega)
  · rw [leftOver]
  · have shorter : popped.buffers.length + 1 = last.buffers.length := by rw [fewer, ← finished]
    show popped.buffers.length < last.buffers.length
    omega

private theorem skipLoop_returns (held : Represents cap bytes s) {count : Nat} (enough : count ≤ bytes.length) :
    Returns (loop .endless skipRound (s.buffers.length + 1)
      ({ s with readableBytes := s.readableBytes - count }, count)) fun out =>
      ∃ last bytesLeft, Skipping cap bytes s count last out.2 bytesLeft ∧
        out.1 = { last with readableBytes := last.readableBytes - out.2 } ∧ last.localReaderIndex + out.2 ≤ cap := by
  have start : Skipping cap bytes s count s count bytes := ⟨held, enough, rfl, rfl, .inl ⟨rfl, rfl⟩, rfl⟩
  refine (while_returns (fun state : ByteBufferImpl × Nat => ∃ last bytesLeft,
      Skipping cap bytes s count last state.2 bytesLeft ∧
        state.1 = { last with readableBytes := last.readableBytes - state.2 })
    (fun state => state.1.buffers.length) ?_ ⟨s, bytes, start, rfl⟩ (Nat.lt_succ_self _)).mono ?_
  · rintro ⟨state, rest⟩ ⟨last, bytesLeft, skipping, same⟩ more
    simp only at same
    subst same
    simp only [gt_iff_lt, decide_eq_true_eq, skipping.held.capacity] at more
    refine (skipping.round more).bind ?_
    rintro after ⟨next, bytesNext, kept, same, fewer⟩
    simp only [skipping.held.capacity, pure_is_ok, returns_ok]
    exact ⟨⟨next, bytesNext, kept, same⟩, fewer⟩
  · rintro ⟨state, rest⟩ ⟨⟨last, bytesLeft, skipping, same⟩, done⟩
    simp only at same
    subst same
    have index : last.localReaderIndex ≤ cap := skipping.held.capacity ▸ skipping.held.wellFormed.readerIndex
    simp only [gt_iff_lt, decide_eq_false_iff_not, skipping.held.capacity] at done
    exact ⟨last, bytesLeft, skipping, rfl, by simp only; omega⟩

/-- What a skip comes to before it assigns the index: a buffer that the rest of the
count is left to be skipped of, within its first segment. -/
private theorem skip_reaches (held : Represents cap bytes s) {count : Nat} (enough : count ≤ bytes.length) :
    ∃ last rest bytesLeft, Skipping cap bytes s count last rest bytesLeft ∧ last.localReaderIndex + rest ≤ cap ∧
      s.skipReadBytes count = (do
        let after ← tryRefreshReaderBuffer { last with
          localReaderIndex := rest
          readableBytes := last.readableBytes - rest }
        pure (successErrorable rest, after)) := by
  have served : ¬ count > s.readableBytes := by
    rw [held.readable]
    omega
  obtain ⟨⟨after, rest⟩, ran, last, bytesLeft, skipping, same, inside⟩ := skipLoop_returns held enough
  simp only at same
  subst same
  refine ⟨last, rest, bytesLeft, skipping, inside, ?_⟩
  simp only [skipReadBytes, if_neg served, ran, ok_bind]

/-! ### Skips that are reads -/

/-- At the end of the last segment there is nothing to pop. -/
theorem refresh_last (held : Represents cap bytes s) (ended : s.localReaderIndex = cap) :
    (s.readableBytes = 0 ∧ s.localWriterIndex = cap ∧ s.tryRefreshReaderBuffer = .error .emptyDeque) ∨
      ¬ (s.readableBytes = 0 ∧ s.localWriterIndex = cap) ∧
        ∃ popped, s.tryRefreshReaderBuffer = .ok popped ∧ Pending s popped ∧ popped.buffers ≠ [] := by
  have writer := held.wellFormed.writerIndex
  have positive := held.capacity_pos
  have capacity := held.capacity
  rcases held.wellFormed.one_segment_or_more with ⟨single, balance⟩ | ⟨another, balance⟩
  · refine .inl ⟨by omega, by omega, ?_⟩
    rw [tryRefreshReaderBuffer, if_pos (by omega), popBuffer]
    split
    · rename_i front next rest split
      rw [split] at single
      cases single
    · rfl
  · obtain ⟨popped, pops, remaining, -, -⟩ := popBuffer_represents held 0 s.localReaderIndex
      (show s.localReaderIndex + 0 = cap from ended) (Nat.zero_le _) another
    have pops : s.popBuffer = .ok popped := pops
    have pending := held.wellFormed.pending (ended.trans capacity.symm) pops
    refine .inr ⟨?_, popped, pending.refresh.1, pending, ?_⟩
    · rintro ⟨empty, atEnd⟩
      omega
    · obtain ⟨front, next, rest, -, -, -, -, -, rfl⟩ := pending
      exact List.cons_ne_nil _ _

/-- From the beginning of a segment, or past the end of one, the index that is assigned
is the one that reads lead to: a skip is these reads and a refresh. -/
private theorem skip_far (held : Represents cap bytes s) {count : Nat} (enough : count ≤ bytes.length)
    (far : s.localReaderIndex = 0 ∨ cap - s.localReaderIndex < count) :
    ∃ read bytesLeft, Represents cap bytesLeft read ∧ readEach count s = .ok read ∧
      (read.readableBytes = 0 ∧ read.localWriterIndex = cap ↔ count = s.readableBytes ∧ s.localWriterIndex = cap) ∧
      s.skipReadBytes count = (do
        let after ← read.tryRefreshReaderBuffer
        pure (successErrorable read.localReaderIndex, after)) := by
  have readable := held.readable
  obtain ⟨last, rest, bytesLeft, skipping, inside, skip⟩ := skip_reaches held enough
  have start : last.localReaderIndex = 0 := by
    rcases skipping.started with ⟨same, unchanged⟩ | start
    · subst unchanged
      omega
    · exact start
  have reads := skipping.same.trans (readEach_within skipping.held inside skipping.enough)
  have after := advance_represents skipping.held rest inside skipping.enough
  rw [start, Nat.zero_add] at reads after
  have passed := skipping.passed
  have writer := skipping.writer
  have left := skipping.held.readable
  exact ⟨_, _, after, reads, by simp only; omega, skip⟩

/-- The skip is refused where the last segment is read to its end, and discards the
bytes otherwise. -/
private theorem skip_from_start (held : Represents cap bytes s) {count : Nat} (enough : count ≤ bytes.length)
    (far : s.localReaderIndex = 0 ∨ cap - s.localReaderIndex < count) :
    SkipDiscards s count ↔ ¬ (count = s.readableBytes ∧ s.localWriterIndex = cap) := by
  have served : ¬ count > s.readableBytes := by
    rw [held.readable]
    omega
  obtain ⟨read, bytesLeft, after, reads, same, skip⟩ := skip_far held enough far
  rw [← same, SkipDiscards, if_neg served, skip, reads]
  by_cases ended : read.localReaderIndex = cap
  · rcases refresh_last after ended with
      ⟨empty, atEnd, refused⟩ | ⟨notLast, popped, refreshed, pending, nonempty⟩
    · rw [refused]
      constructor
      · rintro ⟨result, skipped, _, impossible, -⟩
        cases impossible
      · intro notLast
        exact absurd ⟨empty, atEnd⟩ notLast
    · rw [refreshed]
      refine ⟨fun _ => notLast, fun _ => ?_⟩
      refine ⟨successErrorable read.localReaderIndex, popped, read, rfl, rfl, nonempty, rfl, ?_⟩
      intro operations
      have lags : Lags read popped := .inr pending
      exact (lags.replies operations).symm
  · have index : read.localReaderIndex ≤ cap := after.capacity ▸ after.wellFormed.readerIndex
    have staying : read.tryRefreshReaderBuffer = .ok read :=
      tryRefreshReaderBuffer_room (after.capacity ▸ Nat.lt_of_le_of_ne index ended)
    have nonempty := after.wellFormed.nonempty
    have balance := after.wellFormed.balance
    rw [staying]
    constructor
    · rintro - ⟨empty, atEnd⟩
      rw [empty, atEnd, Nat.zero_add] at balance
      omega
    · intro _
      exact ⟨successErrorable read.localReaderIndex, read, read, rfl, rfl, nonempty, rfl, fun _ => rfl⟩

/-- Such a skip leaves a well-formed buffer, unless it runs into a fault. -/
theorem skipReadBytes_keeps (held : Represents cap bytes s) {count : Nat}
    (far : s.localReaderIndex = 0 ∨ cap - s.localReaderIndex < count) {result : Errorable Nat} {after : ByteBufferImpl}
    (ran : s.skipReadBytes count = .ok (result, after)) : ∃ bytes, Represents cap bytes after := by
  by_cases refused : count > s.readableBytes
  · rw [skipReadBytes, if_pos refused] at ran
    cases ran
    exact ⟨bytes, held⟩
  · obtain ⟨read, bytesLeft, kept, -, -, skip⟩ := skip_far held (by rw [← held.readable]; omega) far
    rw [skip] at ran
    obtain ⟨refreshed, refresh, same⟩ := returns_of_map ran
    cases same
    exact ⟨bytesLeft, refreshed_represents kept refresh⟩

/-! ### Skips that are not -/

/-- Reads of one byte each, where the count of readable bytes may be anything that
is enough for them. -/
theorem reads_answer (held : Represents cap bytes s) (count : Nat) (enough : count ≤ bytes.length) {readable : Nat}
    (counted : count ≤ readable) :
    (Transition.run step { s with readableBytes := readable } (List.replicate count .readByte)).map Prod.snd =
      .ok ((bytes.take count).map fun byte => .pulled [byte]) := by
  induction count generalizing s bytes readable with
  | zero => rfl
  | succ count ih =>
    cases bytes with
    | nil => cases enough
    | cons oldest later =>
      rw [List.length_cons] at enough
      obtain ⟨⟨byte, after⟩, ran, rfl, remaining⟩ := readByteUnsafe_represents held
      have read := readByteUnsafe_counts ran readable
      have served : ¬ readable < 1 := by omega
      have rest := ih remaining (Nat.le_of_succ_le_succ enough) (show count ≤ readable - 1 by omega)
      have stepped : step { s with readableBytes := readable } .readByte =
          .ok ({ after with readableBytes := readable - 1 }, .pulled [byte]) := by
        simp only [step, readByte, if_neg served, read, ok_bind, pure_is_ok, reply, success_isSuccess, if_true,
          success_value]
      rw [List.replicate_succ, Transition.run_cons_outputs stepped, rest]
      rfl

/-- The same after a write of one byte. -/
theorem write_reads_answer (held : Represents cap bytes s) (input : UInt8) (count : Nat)
    (enough : count ≤ bytes.length + 1) {readable : Nat} (counted : count ≤ readable + 1) :
    (Transition.run step { s with readableBytes := readable } (.writeByte input :: List.replicate count .readByte)).map
        Prod.snd =
      .ok (.pushed :: ((bytes ++ [input]).take count).map fun byte => .pulled [byte]) := by
  obtain ⟨after, ran, appended⟩ := writeByte_represents held input
  have written := writeByte_counts ran readable
  have rest := reads_answer appended count (by simpa using enough) counted
  have stepped : step { s with readableBytes := readable } (.writeByte input) =
      .ok ({ after with readableBytes := readable + 1 }, .pushed) := by
    simp only [step, written, ok_bind, pure_is_ok]
  rw [Transition.run_cons_outputs stepped, rest]
  rfl

/-- A skip within a segment that has room behind it assigns the index. -/
theorem skip_assigns (served : ¬ count > s.readableBytes) (stays : ¬ count > s.singleCapacity - s.localReaderIndex)
    (inside : ¬ count ≥ s.singleCapacity) :
    s.skipReadBytes count = .ok (successErrorable count, { s with
      localReaderIndex := count
      readableBytes := s.readableBytes - count }) := by
  simp only [skipReadBytes, if_neg served, loop, skipRound, whileRound, stays, decide_false, Bool.false_eq_true,
    if_false, ok_bind, pure_is_ok, tryRefreshReaderBuffer, if_neg inside]

/-- A skip within a segment that starts behind its beginning: the bytes in front of
the index come back once as many new bytes are written. -/
theorem skip_within (held : Represents cap bytes s) {count : Nat} (enough : count ≤ bytes.length)
    (behind : 0 < s.localReaderIndex) (near : count ≤ cap - s.localReaderIndex) : ¬ SkipDiscards s count := by
  have readable := held.readable
  have capacity := held.capacity
  have index : s.localReaderIndex ≤ cap := capacity ▸ held.wellFormed.readerIndex
  have served : ¬ count > s.readableBytes := by omega
  have skip := skip_assigns served (show ¬ count > s.singleCapacity - s.localReaderIndex by omega)
    (show ¬ count ≥ s.singleCapacity by omega)
  have reads := readEach_within held (show s.localReaderIndex + count ≤ cap by omega) enough
  have read := advance_represents held count (show s.localReaderIndex + count ≤ cap by omega) enough
  -- the skipped buffer counts fewer bytes than there are from its index on
  have balance := held.wellFormed.balance
  have wellFormed : WellFormed { s with
      localReaderIndex := count
      readableBytes := s.readableBytes - count + s.localReaderIndex } :=
    { held.wellFormed with
      readerIndex := by
        simp only
        omega
      balance := by
        simp only
        omega }
  have whole : Represents cap _ { s with
      localReaderIndex := count
      readableBytes := s.readableBytes - count + s.localReaderIndex } := ⟨wellFormed, capacity, rfl⟩
  have length := whole.readable
  generalize content { s with
    localReaderIndex := count
    readableBytes := s.readableBytes - count + s.localReaderIndex } = skippedBytes at whole length
  simp only at length
  rw [SkipDiscards, if_neg served, skip, reads]
  rintro ⟨_, _, _, ⟨⟩, -, -, ⟨⟩, same⟩
  have shorter : bytes.length - count + 1 ≤ skippedBytes.length := by omega
  have answers (input : UInt8) : skippedBytes.take (bytes.length - count + 1) = bytes.drop count ++ [input] := by
    have skipped := write_reads_answer whole input (bytes.length - count + 1) (by omega)
      (show bytes.length - count + 1 ≤ s.readableBytes - count + 1 by omega)
    have direct := write_reads_answer read input (bytes.length - count + 1) (by rw [List.length_drop])
      (show bytes.length - count + 1 ≤ s.readableBytes - count + 1 by omega)
    have both := skipped.symm.trans
      ((same (.writeByte input :: List.replicate (bytes.length - count + 1) .readByte)).trans direct)
    rw [Except.ok.injEq, List.cons.injEq] at both
    have bytesSame := List.map_injective_iff.mpr (fun first second equal => by
      cases equal
      rfl) both.2
    have all : (bytes.drop count ++ [input]).length ≤ bytes.length - count + 1 := by
      rw [List.length_append, List.length_drop, List.length_singleton]
    rwa [List.take_append_of_le_length shorter, List.take_of_length_le all] at bytesSame
  have different := (answers 0).symm.trans (answers 1)
  simp at different

/-! ### When a skip is a read -/

/-- In a buffer that calls have led to, a skip discards bytes exactly if it is refused,
or starts at the beginning of a segment or leaves the one it starts in, and does not
take the last byte of a full last segment. -/
theorem skip_discards_iff {cap : Nat} (positive : 0 < cap) {s : ByteBufferImpl} (reached : Reached cap s)
    (count : Nat) :
    SkipDiscards s count ↔ s.readableBytes < count ∨
      ((s.localReaderIndex = 0 ∨ cap - s.localReaderIndex < count) ∧
        ¬ (count = s.readableBytes ∧ s.localWriterIndex = cap)) := by
  have held := reached.represents positive
  have readable := held.readable
  by_cases refused : s.readableBytes < count
  · refine ⟨fun _ => .inl refused, fun _ => ?_⟩
    have answer : s.skipReadBytes count = .ok (invalidReadSkipRequest (.ofNat count), s) := by
      rw [skipReadBytes, if_pos refused, pure_is_ok]
    rw [SkipDiscards, if_pos refused]
    exact ⟨_, answer, rfl⟩
  · have enough : count ≤ s.content.length := by omega
    by_cases far : s.localReaderIndex = 0 ∨ cap - s.localReaderIndex < count
    · rw [skip_from_start held enough far]
      simp only [refused, far, true_and, false_or]
    · have wrong := skip_within held enough (by omega) (by omega)
      simp only [wrong, refused, far, false_and, or_self]

/-- Segments of two bytes, and a skip that leaves the one that it starts in. -/
theorem skip_across_segments_discards : ∃ s replies,
    Transition.run step (new (fun _ _ => 0) 2) [.writeBytes [1, 2, 3, 4, 5], .readByte] = .ok (s, replies) ∧
      SkipDiscards s 2 := by
  have counts : (Transition.run step (new (fun _ _ => 0) 2) [.writeBytes [1, 2, 3, 4, 5], .readByte]).map
      (fun out => (out.1.readableBytes, out.1.localReaderIndex, out.1.localWriterIndex)) = .ok (4, 1, 1) := rfl
  obtain ⟨⟨s, replies⟩, ran, counts⟩ := returns_of_map counts
  simp only [Prod.mk.injEq] at counts
  have reached : Reached 2 s := ⟨_, _, _, by simp [Operation.Proper], ran⟩
  refine ⟨s, replies, ran, (skip_discards_iff (by decide) reached 2).mpr (.inr ?_)⟩
  omega

/-- After one of three bytes, a skip of one leads back to the byte that it skips. -/
theorem skip_repeats_byte : ∃ s replies,
    Transition.run step (new (fun _ _ => 0) 4) [.writeBytes [1, 2, 3], .readByte] = .ok (s, replies) ∧
      ¬ SkipDiscards s 1 := by
  have skips : (do
      let out ← Transition.run step (new (fun _ _ => 0) 4) [.writeBytes [1, 2, 3], .readByte]
      let (_, skipped) ← out.1.skipReadBytes 1
      pure (out.1.readableBytes, (Transition.run step skipped [.readByte]).map Prod.snd)) =
      .ok (2, .ok [.pulled [2]]) := rfl
  have reads : (do
      let out ← Transition.run step (new (fun _ _ => 0) 4) [.writeBytes [1, 2, 3], .readByte]
      let read ← readEach 1 out.1
      pure ((Transition.run step read [.readByte]).map Prod.snd)) = .ok (.ok [.pulled [3]]) := rfl
  obtain ⟨⟨s, replies⟩, ran, skips⟩ := returns_of_bind skips
  refine ⟨s, replies, ran, ?_⟩
  simp only [ran, ok_bind] at reads
  unfold SkipDiscards
  split
  · rintro ⟨result, answer, -⟩
    simp only [answer, ok_bind, pure_is_ok, Except.ok.injEq, Prod.mk.injEq] at skips
    omega
  · rintro ⟨result, skipped, read, answer, -, -, answerRead, same⟩
    simp only [answer, ok_bind, pure_is_ok, Except.ok.injEq, Prod.mk.injEq] at skips
    simp only [answerRead, ok_bind, pure_is_ok, Except.ok.injEq] at reads
    have different := skips.2.symm.trans ((same [.readByte]).trans reads)
    simp at different

end ShipNet.ByteBufferImpl
