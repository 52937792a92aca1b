import ShipNet.ReachedBuffer

/-! `SkipWriteBytes` against a write of bytes that are not given. The loop takes a
whole segment from the count in its first round as well, and the index is assigned
in the end: both are right only for a writer at the beginning of a segment. -/
namespace ShipNet.ByteBufferImpl
open Fallible

variable {s : ByteBufferImpl} {cap : Nat} {bytes : List UInt8}

/-- The buffer in which the loop of the skip begins. -/
def counted (s : ByteBufferImpl) (count : UInt64) : ByteBufferImpl :=
  { s with readableBytes := s.readableBytes + count.toNat }

/-- No `size_t` of the loop falls below zero. The skip ends, with the indices in
balance and so many more bytes readable, and all further calls are answered as by a
queue with that many bytes behind the ones that were in it. -/
structure SkipWriteAdvances (s : ByteBufferImpl) (count : UInt64) : Prop where
  exact : ∀ state, Visits skipWriteRound (s.counted count, count) state →
    state.1.localWriterIndex ≤ state.1.singleCapacity ∧
      (state.2.toNat > state.1.singleCapacity - state.1.localWriterIndex → state.1.singleCapacity ≤ state.2.toNat)
  advances : ∃ rest after, s.skipWriteBytes count = .ok (rest, after) ∧
    after.readableBytes + after.localReaderIndex =
      (after.buffers.length - 1) * after.singleCapacity + after.localWriterIndex ∧
    after.localWriterIndex ≤ after.singleCapacity ∧ after.readableBytes = s.readableBytes + count.toNat ∧
    ∃ gap : List UInt8, gap.length = count.toNat ∧ ∀ operations, (∀ operation ∈ operations, Operation.Proper operation) →
      Transition.Meets step (fun s operation => operation.Narrow s) after operations →
      ∃ final replies, Transition.run step after operations = .ok (final, replies) ∧
        replies = (Transition.runSpec Fifo.serve (s.content ++ gap) (operations.map Operation.request)).2

/-! ### Bytes that are not given -/

/-- Moving the writer's index within its segment appends what the segment holds. -/
theorem extend_represents (held : Represents cap bytes s) (count : Nat) (fits : s.localWriterIndex + count ≤ cap) :
    ∃ gap : List UInt8, gap.length = count ∧ Represents cap (bytes ++ gap) { s with
      readableBytes := s.readableBytes + count
      localWriterIndex := s.localWriterIndex + count } := by
  refine ⟨(s.heap s.currentWriteBuffer).read s.localWriterIndex count, Block.length_read _ _ _, ?_⟩
  obtain ⟨after, ran, same, appended⟩ := store_represents held
    ((s.heap s.currentWriteBuffer).read s.localWriterIndex count) (by simpa using fits)
  unfold store at ran
  split at ran
  · cases ran
  · split at ran
    · cases ran
    · rw [Block.write_read, Function.update_eq_self, pure_is_ok, Except.ok.injEq] at ran
      rw [← ran, Block.length_read] at appended
      exact appended

theorem toNat_sub_capacity {count : UInt64} {size : Nat} (enough : size ≤ count.toNat) :
    (count - .ofNat size).toNat = count.toNat - size := by
  have small : (UInt64.ofNat size).toNat = size :=
    UInt64.toNat_ofNat_of_lt' (Nat.lt_of_le_of_lt enough count.toNat_lt)
  have ordered : UInt64.ofNat size ≤ count := by
    rw [UInt64.le_iff_toNat_le, small]
    exact enough
  rw [UInt64.toNat_sub_of_le _ _ ordered, small]

/-- A buffer in the loop of the skip: `last`, in which the count that is left has
been added already. The writer is at the beginning of a segment. -/
private structure SkippingWrite (cap : Nat) (bytes : List UInt8) (count : Nat) (last : ByteBufferImpl)
    (state : ByteBufferImpl × UInt64) (gap : List UInt8) : Prop where
  held : Represents cap (bytes ++ gap) last
  passed : gap.length + state.2.toNat = count
  start : last.localWriterIndex = 0
  same : state.1 = last.counted state.2

private theorem SkippingWrite.round {count : Nat} {last : ByteBufferImpl} {state : ByteBufferImpl × UInt64}
    {gap : List UInt8} (skipping : SkippingWrite cap bytes count last state gap) (more : cap < state.2.toNat) :
    ∃ next gapNext, SkippingWrite cap bytes count next (state.1.appendBuffer, state.2 - .ofNat cap) gapNext ∧
      (state.2 - .ofNat cap).toNat = state.2.toNat - cap := by
  obtain ⟨held, passed, start, same⟩ := skipping
  have left := toNat_sub_capacity (Nat.le_of_lt more)
  obtain ⟨piece, length, extended⟩ := extend_represents held cap (by rw [start, Nat.zero_add])
  have full : last.localWriterIndex + cap = cap := by rw [start, Nat.zero_add]
  have appended := appendBuffer_represents extended full
  rw [List.append_assoc] at appended
  refine ⟨_, gap ++ piece, ⟨appended, ?_, rfl, ?_⟩, left⟩
  · rw [List.length_append, length]
    simp only [left]
    omega
  · rw [same]
    have total : last.readableBytes + state.2.toNat = last.readableBytes + cap + (state.2.toNat - cap) := by omega
    simp only [counted, appendBuffer, left, total]

/-! ### From the beginning of a segment -/

/-- Every round starts at the beginning of a segment, so the subtraction is exact. -/
theorem skip_from_start_exact (held : Represents cap bytes s) (start : s.localWriterIndex = 0) (count : UInt64)
    (state : ByteBufferImpl × UInt64) (visits : Visits skipWriteRound (s.counted count, count) state) :
    state.1.localWriterIndex = 0 ∧ state.1.singleCapacity = cap := by
  refine visits.holds (fun state => state.1.localWriterIndex = 0 ∧ state.1.singleCapacity = cap)
    ⟨start, held.capacity⟩ ?_
  rintro ⟨current, left⟩ next ⟨index, capacity⟩ stepped
  simp only [skipWriteRound, whileRound, pure_is_ok] at stepped
  split at stepped
  · cases stepped
    exact ⟨rfl, capacity⟩
  · cases stepped

private theorem skipLoop_from_start (held : Represents cap bytes s) (start : s.localWriterIndex = 0)
    (count : UInt64) :
    Returns (loop .endless skipWriteRound (UInt64.size + 2) (s.counted count, count)) fun out =>
      ∃ last gap, SkippingWrite cap bytes count.toNat last out gap ∧ out.2.toNat ≤ cap := by
  have capacityPos := held.capacity_pos
  have first : SkippingWrite cap bytes count.toNat s (s.counted count, count) [] :=
    ⟨by rwa [List.append_nil], Nat.zero_add _, start, rfl⟩
  have bound := count.toNat_lt
  refine (while_returns (fun state : ByteBufferImpl × UInt64 => ∃ last gap,
      SkippingWrite cap bytes count.toNat last state gap)
    (fun state => state.2.toNat) ?_ ⟨s, [], first⟩ (by
      show count.toNat < UInt64.size + 2
      exact Nat.lt_of_lt_of_le bound (Nat.le_add_right _ _))).mono ?_
  · rintro ⟨current, left⟩ ⟨last, gap, skipping⟩ more
    have same := skipping.same
    simp only at same
    subst same
    have index : (last.counted left).localWriterIndex = 0 := skipping.start
    have capacity : (last.counted left).singleCapacity = cap := skipping.held.capacity
    simp only [gt_iff_lt, decide_eq_true_eq, index, capacity, Nat.sub_zero] at more
    obtain ⟨next, gapNext, kept, less⟩ := skipping.round more
    simp only at less
    simp only [pure_is_ok, returns_ok, capacity]
    exact ⟨⟨next, gapNext, kept⟩, by omega⟩
  · rintro ⟨current, left⟩ ⟨⟨last, gap, skipping⟩, done⟩
    have same := skipping.same
    simp only at same
    subst same
    have index : (last.counted left).localWriterIndex = 0 := skipping.start
    have capacity : (last.counted left).singleCapacity = cap := skipping.held.capacity
    simp only [gt_iff_lt, decide_eq_false_iff_not, index, capacity, Nat.sub_zero, Nat.not_lt] at done
    exact ⟨last, gap, skipping, done⟩

/-- The skip appends bytes that are not given. -/
theorem skip_from_start_appends (held : Represents cap bytes s) (start : s.localWriterIndex = 0) (count : UInt64) :
    Returns (s.skipWriteBytes count) fun out =>
      ∃ gap : List UInt8, gap.length = count.toNat ∧ Represents cap (bytes ++ gap) out.2 := by
  refine (skipLoop_from_start held start count).bind ?_
  rintro ⟨current, left⟩ ⟨last, gap, skipping, inside⟩
  have same := skipping.same
  have passed := skipping.passed
  simp only at same inside passed
  obtain ⟨piece, length, extended⟩ := extend_represents skipping.held left.toNat (by rw [skipping.start]; omega)
  have assigned : { last with
      readableBytes := last.readableBytes + left.toNat
      localWriterIndex := last.localWriterIndex + left.toNat } =
      { current with localWriterIndex := left.toNat } := by
    rw [same, skipping.start, Nat.zero_add]
    rfl
  rw [assigned, List.append_assoc] at extended
  refine (returns_ok _ _).mpr ⟨gap ++ piece, ?_, ?_⟩
  · rw [List.length_append, length, passed]
  · exact (tryRefreshWriterBuffer_represents extended).1

/-! ### From anywhere else -/

/-- The position of the writer among all segments, as it was before a round and as
it is behind the count that is left. -/
private structure SkippingFrom (s : ByteBufferImpl) (count : UInt64) (state : ByteBufferImpl × UInt64) : Prop where
  capacity : state.1.singleCapacity = s.singleCapacity
  reader : state.1.localReaderIndex = s.localReaderIndex
  position : (state.1.buffers.length - 1) * s.singleCapacity + state.2.toNat =
    (s.buffers.length - 1) * s.singleCapacity + count.toNat
  nonempty : 0 < state.1.buffers.length
  started : state = (s.counted count, count) ∨ state.1.localWriterIndex = 0

/-- Wherever it starts, a skip without a wrap ends at the position that is the count
behind the beginning of the segment in which it started. -/
theorem skip_position (held : s.WellFormed) (count : UInt64)
    (noWrap : count.toNat > s.singleCapacity - s.localWriterIndex → s.singleCapacity ≤ count.toNat) :
    Returns (s.skipWriteBytes count) fun out =>
      out.2.singleCapacity = s.singleCapacity ∧ out.2.localReaderIndex = s.localReaderIndex ∧
      (out.2.buffers.length - 1) * s.singleCapacity + out.2.localWriterIndex =
        (s.buffers.length - 1) * s.singleCapacity + count.toNat := by
  have positive := held.capacity
  have first : SkippingFrom s count (s.counted count, count) := ⟨rfl, rfl, rfl, held.length_pos, .inl rfl⟩
  have ended : Returns (loop .endless skipWriteRound (UInt64.size + 2) (s.counted count, count)) fun out =>
      SkippingFrom s count out ∧ out.2.toNat ≤ s.singleCapacity - out.1.localWriterIndex := by
    refine (while_returns (SkippingFrom s count) (fun state => state.2.toNat) ?_ first (by
      show count.toNat < UInt64.size + 2
      exact Nat.lt_of_lt_of_le count.toNat_lt (Nat.le_add_right _ _))).mono ?_
    · rintro ⟨current, left⟩ ⟨capacity, reader, position, several, started⟩ more
      simp only at capacity reader position several
      simp only [gt_iff_lt, decide_eq_true_eq, capacity] at more
      have enough : s.singleCapacity ≤ left.toNat := by
        rcases started with same | start
        · cases same
          exact noWrap more
        · rw [show current.localWriterIndex = 0 from start] at more
          omega
      have less := toNat_sub_capacity enough
      have last := segments_before_last several s.singleCapacity
      simp only [pure_is_ok, returns_ok, capacity]
      refine ⟨⟨capacity, reader, ?_, ?_, .inr rfl⟩, by omega⟩
      · simp only [appendBuffer, List.length_append, List.length_singleton, Nat.add_sub_cancel]
        omega
      · simp [appendBuffer]
    · rintro ⟨current, left⟩ ⟨skipping, done⟩
      simp only [gt_iff_lt, decide_eq_false_iff_not, Nat.not_lt] at done
      exact ⟨skipping, skipping.capacity ▸ done⟩
  refine ended.bind ?_
  rintro ⟨current, left⟩ ⟨⟨capacity, reader, position, several, -⟩, inside⟩
  simp only at capacity reader position several inside
  refine (returns_ok _ _).mpr ?_
  unfold tryRefreshWriterBuffer
  split
  · rename_i full
    simp only [capacity] at full
    have last := segments_before_last several s.singleCapacity
    refine ⟨capacity, reader, ?_⟩
    simp only [appendBuffer, List.length_append, List.length_singleton, Nat.add_sub_cancel]
    omega
  · exact ⟨capacity, reader, position⟩

/-! ### When a skip is a write -/

/-- In a buffer that calls have led to, a skip advances like a write exactly if the
writer is at the beginning of a segment. -/
theorem skip_advances_iff {cap : Nat} (positive : 0 < cap) {s : ByteBufferImpl} (reached : Reached cap s)
    (count : UInt64) : SkipWriteAdvances s count ↔ s.localWriterIndex = 0 := by
  have held := reached.represents positive
  have capacity := held.capacity
  constructor
  · rintro ⟨exact, rest, after, ran, balance, -, readable, -⟩
    have noWrap := (exact _ .start).2
    obtain ⟨out, same, sameCapacity, reader, position⟩ := skip_position held.wellFormed count noWrap
    cases ran.symm.trans same
    have before := held.wellFormed.balance
    rw [readable, reader, sameCapacity, position] at balance
    omega
  · intro start
    refine ⟨?_, ?_⟩
    · intro state visits
      obtain ⟨index, size⟩ := skip_from_start_exact held start count state visits
      omega
    · obtain ⟨⟨rest, after⟩, ran, gap, length, appended⟩ := skip_from_start_appends held start count
      have wellFormed := appended.wellFormed
      have total := appended.readable
      rw [List.length_append, ← held.readable, length] at total
      refine ⟨rest, after, ran, wellFormed.balance, wellFormed.writerIndex, total, gap, length, ?_⟩
      intro operations proper narrow
      obtain ⟨⟨final, replies⟩, ranAll, -, same⟩ := Transition.run_refines
        (fun queue (operation : Operation) => Fifo.serve queue operation.request)
        (fun s queue => Represents cap queue s)
        (fun _ _ _ held admissible => (step_represents held admissible.1 admissible.2).mono
          fun _ out => ⟨out.1, out.2.1⟩)
        appended (narrow.and_forall proper)
      rw [← Transition.runSpec_map] at same
      exact ⟨final, replies, ranAll, same⟩

/-- Over two segments, in a fresh buffer. -/
theorem skip_advances_fresh_buffer : SkipWriteAdvances (new (fun _ _ => 0) 4) 10 := by
  have reached : Reached 4 (new (fun _ _ => 0) 4) := ⟨fun _ _ => 0, [], [], by simp, rfl⟩
  exact (skip_advances_iff (by decide) reached 10).mpr rfl

/-- Behind a byte that was written, a skip of one byte leads nowhere. -/
theorem skip_stays_behind_byte : ∃ s replies,
    Transition.run step (new (fun _ _ => 0) 4) [.writeByte 1] = .ok (s, replies) ∧ ¬ SkipWriteAdvances s 1 := by
  have counts : (do
      let out ← Transition.run step (new (fun _ _ => 0) 4) [.writeByte 1]
      let (_, after) ← out.1.skipWriteBytes 1
      pure (after.readableBytes + after.localReaderIndex, after.buffers.length, after.localWriterIndex)) =
      .ok (2, 1, 1) := by rfl
  obtain ⟨⟨s, replies⟩, ran, counts⟩ := returns_of_bind counts
  refine ⟨s, replies, ran, ?_⟩
  rintro ⟨-, rest, after, skipped, balance, -⟩
  simp only [skipped, ok_bind, pure_is_ok, Except.ok.injEq, Prod.mk.injEq] at counts
  rw [counts.1, counts.2.1, counts.2.2] at balance
  omega

end ShipNet.ByteBufferImpl
