import ShipNet.BufferCalls
import ShipNet.SkipRead

/-! `ResetReaderIndex` and `ResetWriterIndex`. A reset of the reader's index brings back
what was read of the segment that is being read; both resets together empty a buffer
only as long as it has one segment. -/
namespace ShipNet.ByteBufferImpl
open Fallible

variable {s : ByteBufferImpl} {cap : Nat} {bytes : List UInt8}

/-! ### Runs with resets of the reader's index -/

inductive Action where
  | call (operation : Operation)
  | resetReaderIndex

def Action.Proper : Action → Prop
  | call operation => operation.Proper
  | resetReaderIndex => True

def Action.HasRoom : Action → Prop
  | call operation => operation.HasRoom
  | resetReaderIndex => True

def Action.Narrow (s : ByteBufferImpl) : Action → Prop
  | call operation => operation.Narrow s
  | resetReaderIndex => True

/-- The buffer after an action, and the bytes that the action returns. -/
def act (s : ByteBufferImpl) : Action → Exec (ByteBufferImpl × List UInt8)
  | .call operation => do
    let (s, reply) ← s.step operation
    pure (s, reply.pulls)
  | .resetReaderIndex => pure (s.resetReaderIndex, [])

theorem WellFormed.reset (held : s.WellFormed) : s.resetReaderIndex.WellFormed :=
  { held with
    readerIndex := Nat.zero_le _
    balance := by simp [resetReaderIndex] }

theorem WellFormed.reset_readable (held : s.WellFormed) :
    s.resetReaderIndex.readableBytes = s.readableBytes + s.localReaderIndex :=
  held.balance.symm

theorem WellFormed.reset_represents (held : s.WellFormed) :
    Represents s.singleCapacity s.resetReaderIndex.content s.resetReaderIndex :=
  ⟨held.reset, rfl, rfl⟩

/-! ### What a reset would bring back -/

theorem tryRefreshWriterBuffer_reset (held : s.WellFormed) :
    s.resetReaderIndex.tryRefreshWriterBuffer = s.tryRefreshWriterBuffer.resetReaderIndex := by
  by_cases full : s.singleCapacity ≤ s.localWriterIndex
  · rw [tryRefreshWriterBuffer_full full, tryRefreshWriterBuffer_full (by exact full)]
    have last := segments_before_last held.length_pos s.singleCapacity
    have index := Nat.le_antisymm held.writerIndex full
    simp only [appendBuffer, resetReaderIndex, List.length_append, List.length_singleton, Nat.add_sub_cancel,
      Nat.add_zero, index, last]
  · have room := Nat.lt_of_not_le full
    rw [tryRefreshWriterBuffer_room room, tryRefreshWriterBuffer_room (by exact room)]

theorem writeByte_reset (held : s.WellFormed) (input : UInt8) :
    s.resetReaderIndex.writeByte input = (s.writeByte input).map resetReaderIndex := by
  obtain ⟨refreshed, room, -⟩ := tryRefreshWriterBuffer_represents held.represents
  have live := refreshed.wellFormed.live _ (List.mem_of_getLast? refreshed.wellFormed.writer)
  have fits : s.tryRefreshWriterBuffer.localWriterIndex + [input].length ≤
      s.tryRefreshWriterBuffer.singleCapacity := by
    rw [refreshed.capacity]
    exact room
  rw [writeByte, writeByte, tryRefreshWriterBuffer_reset held, store_live live fits,
    store_live (by exact live) (by exact fits)]
  rfl

/-- A byte that is written is kept behind all others. -/
theorem writeByte_keeps (held : Represents cap bytes s) (input : UInt8) :
    Returns (s.writeByte input) fun after =>
      Represents cap (bytes ++ [input]) after ∧
        after.resetReaderIndex.content = s.resetReaderIndex.content ++ [input] := by
  obtain ⟨after, ran, appended⟩ := writeByte_represents held input
  obtain ⟨reset, ranReset, kept⟩ := writeByte_represents held.wellFormed.reset_represents input
  rw [writeByte_reset held.wellFormed, ran] at ranReset
  cases ranReset
  exact ⟨after, ran, appended, kept.content⟩

theorem writeBytes_keeps (held : Represents cap bytes s) (input : List UInt8) :
    Returns (s.writeBytes input) fun after =>
      Represents cap (bytes ++ input) after ∧
        after.resetReaderIndex.content = s.resetReaderIndex.content ++ input := by
  by_cases empty : input = []
  · obtain ⟨refreshed, -, -⟩ := tryRefreshWriterBuffer_represents held
    obtain ⟨kept, -, -⟩ := tryRefreshWriterBuffer_represents held.wellFormed.reset_represents
    rw [tryRefreshWriterBuffer_reset held.wellFormed] at kept
    rw [empty, writeBytes_nothing held, returns_ok, List.append_nil, List.append_nil]
    exact ⟨refreshed, kept.content⟩
  · rw [writeBytes_eq_writeEach held.wellFormed.capacity empty]
    clear empty
    induction input generalizing s bytes with
    | nil => exact (returns_ok _ _).mpr ⟨by rwa [List.append_nil], (List.append_nil _).symm⟩
    | cons first later ih =>
      refine (writeByte_keeps held first).bind ?_
      rintro mid ⟨appended, kept⟩
      refine (ih appended).mono ?_
      rintro after ⟨whole, keptAll⟩
      exact ⟨by simpa using whole, by rw [keptAll, kept, List.append_assoc, List.singleton_append]⟩

/-- A pop drops what a reset would bring back of the segment. -/
theorem popBuffer_reset {after : ByteBufferImpl} (popped : s.popBuffer = .ok after) :
    popBuffer { s.resetReaderIndex with
      readableBytes := s.resetReaderIndex.readableBytes - s.singleCapacity
      localReaderIndex := 0 } = .ok after.resetReaderIndex := by
  unfold popBuffer at popped ⊢
  simp only [resetReaderIndex]
  split at popped
  · rename_i front next rest split
    cases popped
    have last : (front :: next :: rest).length - 1 = (next :: rest).length - 1 + 1 := rfl
    simp only [split, pure_is_ok, Except.ok.injEq]
    rw [last, Nat.add_mul, Nat.one_mul, Nat.add_right_comm, Nat.add_sub_cancel]
  · cases popped

theorem tryRefreshReaderBuffer_keeps {after : ByteBufferImpl} (held : s.WellFormed)
    (refresh : s.tryRefreshReaderBuffer = .ok after) :
    after.resetReaderIndex.content <:+ s.resetReaderIndex.content := by
  by_cases full : s.singleCapacity ≤ s.localReaderIndex
  · rw [tryRefreshReaderBuffer_full full] at refresh
    obtain ⟨-, -, fewer, nonempty⟩ := popBuffer_shape refresh
    have another : 1 < s.buffers.length := by omega
    have enough : s.singleCapacity ≤ s.resetReaderIndex.content.length := by
      have several : s.singleCapacity ≤ (s.buffers.length - 1) * s.singleCapacity :=
        Nat.le_mul_of_pos_left _ (by omega)
      rw [← held.reset_represents.readable]
      exact Nat.le_trans several (Nat.le_add_right _ _)
    obtain ⟨popped, pops, kept, -⟩ := popBuffer_represents held.reset_represents s.singleCapacity 0 (Nat.zero_add _)
      enough another
    cases pops.symm.trans (popBuffer_reset refresh)
    rw [kept.content]
    exact List.drop_suffix _ _
  · rw [tryRefreshReaderBuffer_room (Nat.lt_of_not_le full)] at refresh
    cases refresh
    exact List.suffix_refl _

/-- A byte that is read is still kept, but the segment in front of it may be gone. -/
theorem readByteUnsafe_keeps {oldest : UInt8} {later : List UInt8} (held : Represents cap (oldest :: later) s) :
    Returns s.readByteUnsafe fun out =>
      out.1 = oldest ∧ Represents cap later out.2 ∧
        out.2.resetReaderIndex.content <:+ s.resetReaderIndex.content := by
  obtain ⟨⟨byte, after⟩, ran, same, remaining⟩ := readByteUnsafe_represents held
  refine ⟨(byte, after), ran, same, remaining, ?_⟩
  obtain ⟨refreshed, refresh, fetches⟩ := returns_of_bind ran
  obtain ⟨bytes, -, moved⟩ := returns_of_bind fetches
  cases moved
  show refreshed.resetReaderIndex.content <:+ _
  exact tryRefreshReaderBuffer_keeps held.wellFormed refresh

theorem takeBytes_keeps (held : Represents cap bytes s) {count : Nat} (enough : count ≤ bytes.length) :
    Returns (s.takeBytes count) fun out => out.2.resetReaderIndex.content <:+ s.resetReaderIndex.content := by
  induction count generalizing bytes s with
  | zero => exact (returns_ok _ _).mpr (List.suffix_refl _)
  | succ count ih =>
    cases bytes with
    | nil => exact absurd enough (Nat.not_succ_le_zero count)
    | cons byte bytes =>
      refine (readByteUnsafe_keeps held).bind ?_
      rintro ⟨read, mid⟩ ⟨-, remaining, kept⟩
      refine (ih remaining (Nat.le_of_succ_le_succ enough)).bind ?_
      rintro ⟨others, after⟩ keptAll
      exact (returns_ok _ _).mpr (keptAll.trans kept)

/-- What is kept after a call is the end of what was kept before and was written. -/
theorem step_keeps (held : Represents cap bytes s) {operation : Operation} (proper : operation.Proper) :
    Returns (s.step operation) fun out =>
      out.1.resetReaderIndex.content <:+ s.resetReaderIndex.content ++ operation.request.pushes := by
  cases operation with
  | writeByte input =>
    refine (writeByte_keeps held input).bind ?_
    rintro after ⟨-, kept⟩
    rw [pure_is_ok, returns_ok, kept]
    exact List.suffix_refl _
  | writeBytes input =>
    refine (writeBytes_keeps held input).bind ?_
    rintro after ⟨-, kept⟩
    rw [pure_is_ok, returns_ok, kept]
    exact List.suffix_refl _
  | readByte =>
    rw [Operation.request, Fifo.Request.pushes, List.append_nil]
    cases bytes with
    | nil =>
      simp only [step, readByte_refused held, ok_bind, pure_is_ok, returns_ok]
      exact List.suffix_refl _
    | cons oldest later =>
      have readable : ¬ s.readableBytes < 1 := by
        rw [held.readable]
        simp
      simp only [step, readByte, if_neg readable]
      obtain ⟨out, ran, -, -, kept⟩ := readByteUnsafe_keeps held
      simp only [ran, ok_bind, pure_is_ok, returns_ok]
      exact kept
  | readBytes output size =>
    rw [Operation.request, Fifo.Request.pushes, List.append_nil]
    by_cases enough : size ≤ bytes.length
    · obtain ⟨⟨taken, after⟩, took, kept⟩ := takeBytes_keeps held enough
      obtain ⟨out, ran, -, rfl, -⟩ := readBytes_takes took held.wellFormed.capacity held.wellFormed.readerIndex
        proper.1 (by rw [held.readable]; exact enough) output proper.2
      simp only [step, ran, ok_bind, pure_is_ok, returns_ok]
      exact kept
    · simp only [step, readBytes_refused held output (Nat.lt_of_not_le enough), ok_bind, pure_is_ok, returns_ok]
      exact List.suffix_refl _

/-! ### A reset brings back the last bytes -/

/-- After actions that have returned the `consumed` bytes, a reset brings back as many of
them as the reader's index says. The counts stay in balance, and further calls are
answered as by a queue that starts with these bytes and the unread ones. -/
structure ResetUnreads (admissible : ByteBufferImpl → Operation → Prop) (consumed : List UInt8)
    (s : ByteBufferImpl) : Prop where
  kept : s.localReaderIndex ≤ consumed.length
  content : s.resetReaderIndex.content = consumed.drop (consumed.length - s.localReaderIndex) ++ s.content
  readable : s.resetReaderIndex.readableBytes = s.readableBytes + s.localReaderIndex
  balance : s.resetReaderIndex.readableBytes + s.resetReaderIndex.localReaderIndex =
    (s.resetReaderIndex.buffers.length - 1) * s.resetReaderIndex.singleCapacity + s.resetReaderIndex.localWriterIndex
  fifo : ∀ operations, (∀ operation ∈ operations, Operation.Proper operation) →
    Transition.Meets step admissible s.resetReaderIndex operations →
    ∃ final replies, Transition.run step s.resetReaderIndex operations = .ok (final, replies) ∧
      replies = (Transition.runSpec Fifo.serve s.resetReaderIndex.content (operations.map Operation.request)).2

/-- The bytes returned so far, followed by the unread ones, end in those that are kept. -/
private structure Keeping (cap : Nat) (past : List (List UInt8)) (s : ByteBufferImpl) (bytes : List UInt8) : Prop where
  held : Represents cap bytes s
  kept : s.resetReaderIndex.content <:+ past.flatten ++ bytes

private theorem Keeping.act {past : List (List UInt8)} (keeping : Keeping cap past s bytes) {action : Action}
    (proper : action.Proper) (narrow : action.Narrow s) :
    Returns (s.act action) fun out => ∃ bytes, Keeping cap (past ++ [out.2]) out.1 bytes := by
  obtain ⟨held, kept⟩ := keeping
  cases action with
  | call operation =>
    obtain ⟨⟨after, reply⟩, ran, remaining, same, -⟩ := step_represents held proper narrow
    obtain ⟨_, again, keptAfter⟩ := step_keeps held proper
    cases ran.symm.trans again
    have conserved := Fifo.serve_conserves bytes operation.request
    simp only at same remaining keptAfter
    rw [← same] at conserved
    simp only [ByteBufferImpl.act, ran, ok_bind, pure_is_ok, returns_ok]
    refine ⟨_, remaining, keptAfter.trans ?_⟩
    rw [List.flatten_append, List.flatten_singleton, List.append_assoc, conserved, ← List.append_assoc]
    obtain ⟨front, split⟩ := kept
    exact ⟨front, by rw [← List.append_assoc, split]⟩
  | resetReaderIndex =>
    rw [ByteBufferImpl.act, pure_is_ok, returns_ok]
    have reset : Represents cap s.resetReaderIndex.content s.resetReaderIndex :=
      ⟨held.wellFormed.reset, held.capacity, rfl⟩
    refine ⟨_, reset, ?_⟩
    rw [List.flatten_append, List.flatten_singleton, List.append_nil]
    have again : s.resetReaderIndex.resetReaderIndex = s.resetReaderIndex := rfl
    rw [again]
    exact List.suffix_append _ _

private theorem Keeping.unreads {past : List (List UInt8)} (keeping : Keeping cap past s bytes) :
    ResetUnreads (fun s operation => operation.Narrow s) past.flatten s := by
  obtain ⟨held, kept⟩ := keeping
  have wellFormed := held.wellFormed
  have all := wellFormed.reset_represents
  have readable := wellFormed.reset_readable
  have count : s.resetReaderIndex.content.length - bytes.length = s.localReaderIndex := by
    rw [← all.readable, ← held.readable, readable, Nat.add_sub_cancel_left]
  obtain ⟨enough, split⟩ := Fifo.kept_eq_last_consumed kept (by
    rw [← all.readable, ← held.readable, readable]
    exact Nat.le_add_right _ _)
  rw [count] at enough split
  refine ⟨enough, by rw [split, held.content], readable, wellFormed.reset.balance, ?_⟩
  intro operations proper narrow
  obtain ⟨⟨final, replies⟩, ran, -, same⟩ := Transition.run_refines
    (fun queue (operation : Operation) => Fifo.serve queue operation.request)
    (fun current queue => Represents s.singleCapacity queue current)
    (fun _ _ _ held admissible => (step_represents held admissible.1 admissible.2).mono
      fun _ out => ⟨out.1, out.2.1⟩)
    all (narrow.and_forall proper)
  rw [← Transition.runSpec_map] at same
  exact ⟨final, replies, ran, same⟩

/-- In a run of calls and resets, none of which reads past the range of `bytesIndex`, a
reset brings back the last bytes. Every moment of a run is the end of a shorter one. -/
theorem reset_unreads (heap : Nat → Block UInt8) (cap : Nat) (positive : 0 < cap) (actions : List Action)
    (proper : ∀ action ∈ actions, action.Proper)
    (narrow : Transition.Meets act (fun s action => action.Narrow s) (new heap cap) actions) :
    ∃ final outputs, Transition.run act (new heap cap) actions = .ok (final, outputs) ∧
      ResetUnreads (fun s operation => operation.Narrow s) outputs.flatten final := by
  have fresh : Keeping cap [] (new heap cap) [] := ⟨represents_new heap positive, by
    have reset := (represents_new heap positive).wellFormed.reset_represents
    have empty := reset.readable
    rw [(represents_new heap positive).wellFormed.reset_readable] at empty
    rw [List.length_eq_zero_iff.mp empty.symm]
    exact List.nil_suffix⟩
  obtain ⟨⟨final, outputs⟩, ran, bytes, keeping⟩ := Transition.run_records
    (fun s past => ∃ bytes, Keeping cap past s bytes)
    (fun s past action ⟨bytes, keeping⟩ admissible => keeping.act admissible.1 admissible.2)
    ⟨[], fresh⟩ (narrow.and_forall proper)
  rw [List.nil_append] at keeping
  exact ⟨final, outputs, ran, keeping.unreads⟩

/-- Segments of two bytes: one byte is read, brought back and read again with the others. -/
theorem reset_unreads_small_segments : ∃ final outputs,
    Transition.run act (new (fun _ _ => 0) 2)
      [.call (.writeBytes [1, 2, 3]), .call .readByte, .resetReaderIndex, .call (.readBytes ⟨fun _ => 0, 3⟩ 3)] =
        .ok (final, outputs) ∧
      ResetUnreads (fun s operation => operation.Narrow s) outputs.flatten final :=
  reset_unreads (fun _ _ => 0) 2 (by decide) _ (by simp [Action.Proper, Operation.Proper])
    (Transition.meets_of_forall (by
      intro action member state
      simp only [List.mem_cons, List.not_mem_nil, or_false] at member
      rcases member with rfl | rfl | rfl | rfl
      · trivial
      · trivial
      · trivial
      · exact fun _ => lastPieceOffset_lt _ _ (by decide)))

/-- Where reads may be of any size, those after a reset are not answered as by a queue. -/
theorem reset_is_not_followed_by_fifo_past_4GiB :
    ¬ ∀ (heap : Nat → Block UInt8) (cap : Nat) (actions : List Action), 0 < cap →
      (∀ action ∈ actions, action.Proper) →
      ∃ final outputs, Transition.run act (new heap cap) actions = .ok (final, outputs) ∧
        ResetUnreads (fun _ _ => True) outputs.flatten final := by
  intro unreads
  have wide (cap : Nat) (positive : 0 < cap) (wraps : UInt32.ofNat cap = 0) : False := by
    obtain ⟨final, outputs, ran, unread⟩ := unreads (fun _ _ => 0) cap [] positive (by simp)
    cases ran
    refine wrapped_run_differs (List.replicate cap 0) positive List.length_replicate wraps
      (by simp [List.head?_replicate, Nat.ne_of_gt positive]) (fun _ _ => 0) (fun _ => 0) ?_
    have proper : ∀ operation ∈ [Operation.writeBytes (List.replicate cap 0 ++ [1]),
        .readBytes ⟨fun _ => 0, cap + 1⟩ (cap + 1)], operation.Proper := by
      intro operation member
      simp only [List.mem_cons, List.not_mem_nil, or_false] at member
      rcases member with rfl | rfl
      · trivial
      · exact ⟨Nat.succ_pos cap, Nat.le_refl _⟩
    have empty := (represents_new (fun _ _ => 0) positive).content
    have answered := unread.fifo _ proper (Transition.meets_of_forall fun _ _ _ => trivial)
    have fresh : (new (fun _ _ => 0) cap).resetReaderIndex = new (fun _ _ => 0) cap := by
      simp [new, resetReaderIndex]
    rwa [fresh, empty] at answered
  exact wide (2 ^ 32) (by decide) (by decide)

/-! ### Both resets -/

/-- Whatever so many bytes are written, as many reads of a byte return them. -/
def ReadsBackBytewise (s : ByteBufferImpl) (count : Nat) : Prop :=
  ∀ input : List UInt8, input.length = count →
    (Transition.run step s (.writeBytes input :: List.replicate count .readByte)).map Prod.snd =
      .ok (.pushed :: input.map fun byte => .pulled [byte])

/-- Whatever so many bytes are written, a read of them into any array returns them. -/
def ReadsBackInBulk (s : ByteBufferImpl) (count : Nat) : Prop :=
  ∀ input : List UInt8, input.length = count → ∀ output : OutputArray, count ≤ output.size →
    ∃ after filled final, s.writeBytes input = .ok after ∧
      after.readBytes output count = .ok (successErrorable input, filled, final)

/-- After both resets, all that the segments before the last one hold is in front of
what is written next. Only the count does not say so. -/
theorem resets_hold (held : s.WellFormed) :
    Represents s.singleCapacity (s.buffers.dropLast.flatMap s.segment)
      { s.resetReaderIndex.resetWriterIndex with readableBytes := (s.buffers.length - 1) * s.singleCapacity } where
  wellFormed :=
    { held with
      readerIndex := Nat.zero_le _
      writerIndex := Nat.zero_le _
      balance := rfl }
  capacity := rfl
  content := by
    have split := List.dropLast_append_getLast? _ (Option.mem_def.mpr held.writer)
    have front := length_segments s s.buffers.dropLast
    rw [List.length_dropLast] at front
    have segments : s.buffers.flatMap s.segment =
        s.buffers.dropLast.flatMap s.segment ++ s.segment s.currentWriteBuffer := by
      conv_lhs => rw [← split]
      simp
    change ((s.buffers.flatMap s.segment).drop 0).take _ = _
    rw [List.drop_zero, segments, ← front, List.take_left]

/-- What is written then is counted, and the reader starts with the bytes in front of it. -/
theorem resets_then_write (held : s.WellFormed) {input : List UInt8} (more : input ≠ []) :
    ∃ written, s.resetReaderIndex.resetWriterIndex.writeBytes input =
        .ok { written with readableBytes := input.length } ∧
      Represents s.singleCapacity (s.buffers.dropLast.flatMap s.segment ++ input) written ∧
      written.localReaderIndex = 0 := by
  obtain ⟨written, wrote, appended, index⟩ := writeEach_appends (resets_hold held) input
  have counted := writeEach_counts wrote 0
  rw [Nat.zero_add] at counted
  rw [writeBytes_eq_writeEach (by exact held.capacity) more]
  exact ⟨written, counted, appended, index⟩

theorem take_behind_iff {old : List UInt8} {count : Nat} (more : 0 < count) :
    (∀ input : List UInt8, input.length = count → (old ++ input).take count = input) ↔ old = [] := by
  constructor
  · intro same
    cases old with
    | nil => rfl
    | cons byte old =>
      obtain ⟨other, differs⟩ := another_byte byte
      have first := congrArg List.head? (same (List.replicate count other) List.length_replicate)
      rw [List.head?_take, if_neg (Nat.ne_of_gt more), List.head?_replicate, if_neg (Nat.ne_of_gt more)] at first
      exact absurd (Option.some.inj first).symm differs
  · rintro rfl input rfl
    rw [List.nil_append, List.take_length]

theorem one_segment_iff (held : s.WellFormed) :
    s.buffers.dropLast.flatMap s.segment = [] ↔ s.buffers.length = 1 := by
  have front := length_segments s s.buffers.dropLast
  have positive := held.capacity
  have some := held.length_pos
  rw [List.length_dropLast] at front
  rw [← List.length_eq_zero_iff, front, Nat.mul_eq_zero]
  omega

theorem resets_write_nothing (held : s.WellFormed) :
    s.resetReaderIndex.resetWriterIndex.writeBytes [] = .ok s.resetReaderIndex.resetWriterIndex := by
  have refresh : s.resetReaderIndex.resetWriterIndex.tryRefreshWriterBuffer = s.resetReaderIndex.resetWriterIndex :=
    tryRefreshWriterBuffer_room held.capacity
  have live := held.live _ (List.mem_of_getLast? held.writer)
  rw [writeBytes_none (by rw [refresh]; exact live) (by rw [refresh]; exact Nat.zero_le _), refresh]

theorem readsBackBytewise_iff (held : s.WellFormed) (count : Nat) :
    ReadsBackBytewise s.resetReaderIndex.resetWriterIndex count ↔ count = 0 ∨ s.buffers.length = 1 := by
  rcases Nat.eq_zero_or_pos count with rfl | more
  · refine ⟨fun _ => .inl rfl, fun _ input empty => ?_⟩
    rw [List.length_eq_zero_iff.mp empty]
    simp only [List.replicate_zero, Transition.run, step, resets_write_nothing held, ok_bind, pure_is_ok, Except.map,
      List.map_nil]
  · have answers (input : List UInt8) (length : input.length = count) :
        (Transition.run step s.resetReaderIndex.resetWriterIndex
          (.writeBytes input :: List.replicate count .readByte)).map Prod.snd =
          .ok (.pushed :: ((s.buffers.dropLast.flatMap s.segment ++ input).take count).map fun byte =>
            .pulled [byte]) := by
      obtain ⟨written, wrote, appended, -⟩ := resets_then_write held (List.length_pos_iff.mp (length ▸ more))
      have stepped : step s.resetReaderIndex.resetWriterIndex (.writeBytes input) =
          .ok ({ written with readableBytes := input.length }, .pushed) := by
        simp only [step, wrote, ok_bind, pure_is_ok]
      have rest := reads_answer appended count (by rw [List.length_append, length]; exact Nat.le_add_left _ _)
        (Nat.le_of_eq length.symm)
      rw [Transition.run_cons_outputs stepped, rest]
      rfl
    have distinct : Function.Injective fun byte : UInt8 => Fifo.Reply.pulled [byte] := by
      intro first second same
      simpa using same
    rw [← one_segment_iff held, ← take_behind_iff more, or_iff_right (Nat.ne_of_gt more)]
    refine forall₂_congr fun input length => ?_
    rw [answers input length, Except.ok.injEq, List.cons_inj_right, (List.map_injective_iff.mpr distinct).eq_iff]

theorem readsBackInBulk_iff (held : s.WellFormed) (count : Nat) :
    ReadsBackInBulk s.resetReaderIndex.resetWriterIndex count ↔
      count = 0 ∨ s.buffers.length = 1 ∧ s.resetReaderIndex.resetWriterIndex.lastPieceOffset count < 2 ^ 32 := by
  rcases Nat.eq_zero_or_pos count with rfl | more
  · refine ⟨fun _ => .inl rfl, fun _ input empty output _ => ?_⟩
    rw [List.length_eq_zero_iff.mp empty]
    have live := held.live _ (List.mem_of_mem_head? held.reader)
    have refresh := tryRefreshReaderBuffer_room (s := s.resetReaderIndex.resetWriterIndex) held.capacity
    exact ⟨_, _, _, resets_write_nothing held, readBytes_none refresh live (Nat.zero_le _) output⟩
  · have reads (input : List UInt8) (length : input.length = count) :
        (∀ output : OutputArray, count ≤ output.size → ∃ after filled final,
          s.resetReaderIndex.resetWriterIndex.writeBytes input = .ok after ∧
            after.readBytes output count = .ok (successErrorable input, filled, final)) ↔
          s.resetReaderIndex.resetWriterIndex.lastPieceOffset count < 2 ^ 32 ∧
            (s.buffers.dropLast.flatMap s.segment ++ input).take count = input := by
      obtain ⟨written, wrote, appended, index⟩ := resets_then_write held (List.length_pos_iff.mp (length ▸ more))
      obtain ⟨⟨taken, final⟩, took, rfl, -⟩ := takeBytes_represents appended (show count ≤ _ by
        rw [List.length_append, length]
        exact Nat.le_add_left _ _)
      have offset : lastPieceOffset { written with readableBytes := input.length } count =
          s.resetReaderIndex.resetWriterIndex.lastPieceOffset count := by
        simp only [lastPieceOffset, index, appended.capacity]
        rfl
      have fills := readBytes_fills_iff (takeBytes_counts took input.length) (by exact appended.wellFormed.capacity)
        (by exact appended.wellFormed.readerIndex) more (Nat.le_of_eq length.symm) input
      rw [offset, eq_comm] at fills
      rw [← fills]
      simp only [wrote, Except.ok.injEq, exists_and_left, exists_eq_left']
    rw [← one_segment_iff held, ← take_behind_iff more, or_iff_right (Nat.ne_of_gt more)]
    constructor
    · intro all
      have narrow := (reads _ List.length_replicate).mp (all (List.replicate count 0) List.length_replicate)
      exact ⟨fun input length => ((reads input length).mp (all input length)).2, narrow.1⟩
    · rintro ⟨same, narrow⟩ input length
      exact (reads input length).mpr ⟨narrow, same input length⟩

/-- After both resets nothing is readable, but what is written next is read back exactly
if the buffer had a single segment, and a read in bulk has no piece past the range of
`bytesIndex`. -/
theorem resets_empty_iff (positive : 0 < cap) (reached : Reached cap s) :
    s.resetReaderIndex.resetWriterIndex.readableBytes = 0 ∧
    ∀ count,
      (ReadsBackBytewise s.resetReaderIndex.resetWriterIndex count ↔ count = 0 ∨ s.buffers.length = 1) ∧
      (ReadsBackInBulk s.resetReaderIndex.resetWriterIndex count ↔
        count = 0 ∨ s.buffers.length = 1 ∧ s.resetReaderIndex.resetWriterIndex.lastPieceOffset count < 2 ^ 32) := by
  have held := (reached.represents positive).wellFormed
  exact ⟨rfl, fun count => ⟨readsBackBytewise_iff held count, readsBackInBulk_iff held count⟩⟩

/-- A byte in a segment of two: the segment is used again. -/
theorem resets_empty_one_segment : ∃ s replies,
    Transition.run step (new (fun _ _ => 0) 2) [.writeByte 1] = .ok (s, replies) ∧
      ReadsBackBytewise s.resetReaderIndex.resetWriterIndex 3 ∧
      ReadsBackInBulk s.resetReaderIndex.resetWriterIndex 3 := by
  have segments : (Transition.run step (new (fun _ _ => 0) 2) [.writeByte 1]).map
      (fun out => out.1.buffers.length) = .ok 1 := rfl
  obtain ⟨⟨s, replies⟩, ran, single⟩ := returns_of_map segments
  have reached : Reached 2 s := ⟨_, _, _, by simp [Operation.Proper], ran⟩
  obtain ⟨bytewise, bulk⟩ := (resets_empty_iff (by decide) reached).2 3
  refine ⟨s, replies, ran, bytewise.mpr (.inr single), bulk.mpr (.inr ⟨single, ?_⟩)⟩
  exact lastPieceOffset_lt _ _ (by decide)

/-- Two bytes in segments of one: after both resets the byte that is read is the first
of them and not the one written in between. -/
theorem resets_keep_segments : ∃ s replies,
    Transition.run step (new (fun _ _ => 0) 1) [.writeBytes [1, 2]] = .ok (s, replies) ∧
      ¬ ReadsBackBytewise s.resetReaderIndex.resetWriterIndex 1 := by
  have answers : (do
      let out ← Transition.run step (new (fun _ _ => 0) 1) [.writeBytes [1, 2]]
      Prod.snd <$> Transition.run step out.1.resetReaderIndex.resetWriterIndex [.writeBytes [3], .readByte]) =
      .ok [.pushed, .pulled [1]] := rfl
  obtain ⟨⟨s, replies⟩, ran, answers⟩ := returns_of_bind answers
  refine ⟨s, replies, ran, fun readsBack => ?_⟩
  cases answers.symm.trans (readsBack [3] rfl)

end ShipNet.ByteBufferImpl
