import ShipNet.Agreement
import ShipNet.FramedPipe
import ShipNet.PipedConnection

/-! Which errors end `HandleNewBytes`. The packet pipe and the main handler are asked
before anything further is called; what a byte pipe answers is dropped, and an error of
a further handler closes the connection and leaves the loop to the value beside it. -/
namespace ShipNet
open Fallible

/-! ### Runs that halt at a failure -/

section Halting

variable {α : Type} {fatal : α → Prop} {settled : Prop} {first later : List α} {result : α}

/-- Nothing follows a fatal result, and behind it all is settled. -/
def Halts (fatal : α → Prop) (settled : Prop) (results : List α) : Prop :=
  ∀ earlier result later, results = earlier ++ result :: later → fatal result → settled ∧ later = []

theorem halts_nil : Halts fatal settled [] := by
  intro earlier result later split
  exact absurd split.symm (by simp)

theorem halts_cons : Halts fatal settled (result :: later) ↔
    (fatal result → settled ∧ later = []) ∧ Halts fatal settled later := by
  constructor
  · intro halts
    refine ⟨halts [] result later rfl, ?_⟩
    intro earlier other behind split
    exact halts (result :: earlier) other behind (congrArg (result :: ·) split)
  · rintro ⟨front, behind⟩ earlier other rest split
    cases earlier with
    | nil =>
      cases split
      exact front
    | cons head earlier =>
      cases split
      exact behind earlier other rest rfl

/-- Where something always follows, nothing may be fatal. -/
theorem halts_append (follows : later ≠ []) : Halts fatal settled (first ++ later) ↔
    (∀ result ∈ first, ¬ fatal result) ∧ Halts fatal settled later := by
  induction first with
  | nil => simp
  | cons result first ih =>
    have notLast : first ++ later ≠ [] := fun empty => follows (List.append_eq_nil_iff.mp empty).2
    rw [List.cons_append, halts_cons, ih, List.forall_mem_cons, and_assoc]
    apply and_congr_left'
    constructor
    · intro halts failed
      exact notLast (halts failed).2
    · intro fine failed
      exact absurd failed fine

end Halting

/-- What a stage of `HandleNewBytes` answers. For a further handler, with the number of
those behind it in the list. -/
inductive StageResult where
  | byteBytePipe (result : Errorable Nat)
  | bytePacketPipe (packet : Errorable PacketHolder)
  | mainPacketHandler (wasHandled : Errorable Bool)
  | packetHandler (behind : Nat) (wasHandled : Errorable Bool)

namespace StageResult

/-- An error other than that of a frame which is not there to its end. -/
def Fatal : StageResult → Prop
  | byteBytePipe result => result.isSuccess = false ∧ result.typeOrdinal ≠ .incompleteByteFrame
  | bytePacketPipe packet => packet.isSuccess = false ∧ packet.typeOrdinal ≠ .incompleteFrame
  | mainPacketHandler wasHandled => wasHandled.isSuccess = false
  | packetHandler _ wasHandled => wasHandled.isSuccess = false

/-- An error of a byte pipe, or one of a further handler that is not the last of the
list and answers `false` beside it. -/
def Overlooked : StageResult → Prop
  | byteBytePipe result => result.isSuccess = false ∧ result.typeOrdinal ≠ .incompleteByteFrame
  | bytePacketPipe _ => False
  | mainPacketHandler _ => False
  | packetHandler behind wasHandled => wasHandled.isSuccess = false ∧ wasHandled.value = false ∧ behind ≠ 0

end StageResult

namespace PipedConnection

variable {π ρ ψ γ : Type} (protocol : Protocol π ρ ψ γ)

/-! ### `HandleNewBytes`, with what its stages answer -/

def readPipelineLogged (currentBuffer : ByteBufferImpl) :
    List (DuplexPipe π) → Exec ((ByteBufferImpl × List (DuplexPipe π)) × List StageResult)
  | [] => pure ((currentBuffer, []), [])
  | byteBytePipe :: later => do
    let (result, byteBytePipe, currentBuffer) ← protocol.readPipe byteBytePipe currentBuffer
    let ((readerBuffer, later), results) ← readPipelineLogged byteBytePipe.readerBuffer later
    pure ((currentBuffer, { byteBytePipe with readerBuffer := readerBuffer } :: later), .byteBytePipe result :: results)

def receiveLogged (c : PipedConnection π ρ γ) (page : List UInt8) :
    Exec (PipedConnection π ρ γ × List StageResult) := do
  let readerBuffer ← c.readerBuffer.writeBytes page
  let ((readerBuffer, pipeline), results) ← readPipelineLogged protocol readerBuffer c.pipeline
  pure ({ c with readerBuffer := readerBuffer, pipeline := pipeline }, results)

def offerFurtherLogged (packet : PacketHolder) :
    List PacketHandler → PipedConnection π ρ γ → Exec (PipedConnection π ρ γ × List StageResult)
  | [], c => pure (c, [])
  | item :: later, c => do
    let (wasHandled, c) ← offer protocol c .packetHandlers item packet
    let c := if !wasHandled.isSuccess then c.close else c
    if wasHandled.value then pure (c, [.packetHandler later.length wasHandled])
    else do
      let (c, results) ← offerFurtherLogged packet later c
      pure (c, .packetHandler later.length wasHandled :: results)

def dispatchLogged (c : PipedConnection π ρ γ) (packet : Errorable PacketHolder) :
    Exec (PipedConnection π ρ γ × List StageResult) :=
  if packet.isSuccess then do
    let (wasHandled, c) ← offer protocol c .mainPacketHandler c.mainPacketHandler packet.value
    if !wasHandled.isSuccess then pure (c.close, [.mainPacketHandler wasHandled])
    else if !wasHandled.value then do
      let (c, results) ← offerFurtherLogged protocol packet.value c.packetHandlers c
      pure (c, .mainPacketHandler wasHandled :: results)
    else pure (c, [.mainPacketHandler wasHandled])
  else if packet.typeOrdinal ≠ .incompleteFrame then pure (c.close, [])
  else pure (c, [])

def handlePacketLogged (c : PipedConnection π ρ γ) : Exec (PipedConnection π ρ γ × List StageResult) := do
  let (packet, bytePacketPipe, buffer) ← protocol.readPacket c.bytePacketPipe c.packetBuffer
  let (c, results) ← dispatchLogged protocol { c.setPacketBuffer buffer with bytePacketPipe := bytePacketPipe } packet
  pure (c, .bytePacketPipe packet :: results)

/-- `HandleNewBytes(page, page_size)`, with the answers of the stages that it invokes, in
their order. -/
def handleNewBytesLogged (c : PipedConnection π ρ γ) (page : List UInt8) :
    Exec (PipedConnection π ρ γ × List StageResult) := do
  let (c, read) ← receiveLogged protocol c page
  let (c, results) ← handlePacketLogged protocol c
  pure (c, read ++ results)

variable {protocol} {c after : PipedConnection π ρ γ} {packet : PacketHolder} {results : List StageResult}

theorem readPipelineLogged_agree (buffer : ByteBufferImpl) (pipes : List (DuplexPipe π)) :
    Agree (fun out plain => out.1 = plain) (readPipelineLogged protocol buffer pipes)
      ((incoming protocol).readPipeline buffer pipes) := by
  induction pipes generalizing buffer with
  | nil => rfl
  | cons pipe later ih =>
    unfold readPipelineLogged Incoming.readPipeline
    refine (Agree.refl _).bind ?_
    rintro ⟨result, read, input⟩ _ rfl
    refine (ih read.readerBuffer).bind ?_
    rintro ⟨passed, results⟩ _ rfl
    rfl

theorem offerFurtherLogged_agree (packet : PacketHolder) (items : List PacketHandler) (c : PipedConnection π ρ γ) :
    Agree (fun out plain => out.1 = plain) (offerFurtherLogged protocol packet items c)
      ((incoming protocol).offerFurther packet () items c) := by
  induction items generalizing c with
  | nil => rfl
  | cons item later ih =>
    unfold offerFurtherLogged Incoming.offerFurther
    refine (Agree.refl _).bind ?_
    rintro ⟨wasHandled, next⟩ _ rfl
    simp only
    split
    · rfl
    · exact (ih _).bind_pure fun logged plain same => same

theorem dispatchLogged_agree (c : PipedConnection π ρ γ) (packet : Errorable PacketHolder) :
    Agree (fun out plain => out.1 = plain) (dispatchLogged protocol c packet) (dispatch protocol c packet) := by
  unfold dispatchLogged dispatch Incoming.dispatch
  split
  · refine (Agree.refl _).bind ?_
    rintro ⟨wasHandled, next⟩ _ rfl
    simp only
    split
    · rfl
    · split
      · exact (offerFurtherLogged_agree packet.value next.packetHandlers next).bind_pure fun logged plain same => same
      · rfl
  · split
    · rfl
    · rfl

theorem receiveLogged_agree (c : PipedConnection π ρ γ) (page : List UInt8) :
    Agree (fun out plain => out.1 = plain) (receiveLogged protocol c page)
      ((incoming protocol).receive c page) := by
  unfold receiveLogged Incoming.receive
  refine (Agree.refl _).bind ?_
  rintro buffer _ rfl
  refine (readPipelineLogged_agree buffer c.pipeline).bind ?_
  rintro ⟨passed, results⟩ _ rfl
  rfl

theorem handlePacketLogged_agree (c : PipedConnection π ρ γ) :
    Agree (fun out plain => out.1 = plain) (handlePacketLogged protocol c)
      ((incoming protocol).handlePacket c) := by
  rw [handlePacket_eq]
  unfold handlePacketLogged
  refine (Agree.refl _).bind ?_
  rintro ⟨packet, bytePacketPipe, buffer⟩ _ rfl
  exact (dispatchLogged_agree _ packet).bind_pure fun logged plain same => same

/-- The log is beside the code: without it, this is `HandleNewBytes`. -/
theorem handleNewBytesLogged_erased (c : PipedConnection π ρ γ) (page : List UInt8) :
    (handleNewBytesLogged protocol c page).map Prod.fst = handleNewBytes protocol c page := by
  have agree : Agree (fun out plain => out.1 = id plain) (handleNewBytesLogged protocol c page)
      (handleNewBytes protocol c page) := by
    unfold handleNewBytesLogged handleNewBytes Incoming.handleNewBytes
    refine (receiveLogged_agree c page).bind ?_
    rintro ⟨reached, results⟩ _ rfl
    exact (handlePacketLogged_agree reached).bind_pure fun logged plain same => same
  have same := agree.map_eq
  rwa [Except.map_id] at same

/-! ### What follows an error -/

theorem close_closed (c : PipedConnection π ρ γ) : c.close.readWriteCloser.closed = true := by
  cases closed : c.readWriteCloser.closed with
  | true => simp [close, UnixReadWriteCloser.close, closed]
  | false => simp [close, UnixReadWriteCloser.close, closed]

/-- The last error of the loop closes the connection, whatever value is beside it. -/
theorem closed_of_error {wasHandled : Errorable Bool} (failed : wasHandled.isSuccess = false)
    (c : PipedConnection π ρ γ) : (if !wasHandled.isSuccess then c.close else c).readWriteCloser.closed = true := by
  rw [failed]
  exact close_closed c

/-- The loop asks at least one handler, if there is one. -/
theorem offerFurtherLogged_asks {items : List PacketHandler} (some : items ≠ [])
    (ran : offerFurtherLogged protocol packet items c = .ok (after, results)) : results ≠ [] := by
  cases items with
  | nil => exact absurd rfl some
  | cons item later =>
    unfold offerFurtherLogged at ran
    obtain ⟨⟨wasHandled, next⟩, -, rest⟩ := returns_of_bind ran
    by_cases value : wasHandled.value = true
    · simp only [if_pos value] at rest
      cases rest
      exact List.cons_ne_nil _ _
    · simp only [if_neg value] at rest
      obtain ⟨further, -, same⟩ := returns_of_bind rest
      cases same
      exact List.cons_ne_nil _ _

theorem offerFurtherLogged_halts_iff {items : List PacketHandler}
    (ran : offerFurtherLogged protocol packet items c = .ok (after, results)) :
    Halts StageResult.Fatal (after.readWriteCloser.closed = true) results ↔
      ∀ result ∈ results, ¬ result.Overlooked := by
  induction items generalizing c results with
  | nil =>
    cases ran
    exact iff_of_true halts_nil (List.forall_mem_nil _)
  | cons item later ih =>
    unfold offerFurtherLogged at ran
    obtain ⟨⟨wasHandled, next⟩, -, rest⟩ := returns_of_bind ran
    by_cases value : wasHandled.value = true
    · simp only [if_pos value] at rest
      cases rest
      rw [halts_cons, List.forall_mem_cons]
      have heeded : ¬ (StageResult.packetHandler later.length wasHandled).Overlooked := by
        simp [StageResult.Overlooked, value]
      refine iff_of_true ⟨?_, halts_nil⟩ ⟨heeded, List.forall_mem_nil _⟩
      intro failed
      exact ⟨closed_of_error failed next, rfl⟩
    · simp only [if_neg value] at rest
      obtain ⟨⟨last, further⟩, ranFurther, same⟩ := returns_of_bind rest
      cases same
      have notHandled : wasHandled.value = false := Bool.eq_false_of_not_eq_true value
      rw [halts_cons, List.forall_mem_cons, ih ranFurther]
      apply and_congr_left'
      constructor
      · rintro halts ⟨failed, -, more⟩
        exact offerFurtherLogged_asks (List.length_pos_iff.mp (Nat.pos_of_ne_zero more)) ranFurther (halts failed).2
      · intro heeded failed
        cases later with
        | nil =>
          cases ranFurther
          exact ⟨closed_of_error failed next, rfl⟩
        | cons other behind => exact absurd ⟨failed, notHandled, Nat.succ_ne_zero _⟩ heeded

/-- The packet pipe and the main handler are heeded in any case. -/
theorem dispatchLogged_halts_iff {packet : Errorable PacketHolder}
    (ran : dispatchLogged protocol c packet = .ok (after, results)) :
    Halts StageResult.Fatal (after.readWriteCloser.closed = true) (.bytePacketPipe packet :: results) ↔
      ∀ result ∈ results, ¬ result.Overlooked := by
  rw [halts_cons]
  unfold dispatchLogged at ran
  by_cases success : packet.isSuccess = true
  · rw [if_pos success] at ran
    have fine : ¬ (StageResult.bytePacketPipe packet).Fatal := by simp [StageResult.Fatal, success]
    rw [and_iff_right fun failed => absurd failed fine]
    obtain ⟨⟨wasHandled, next⟩, -, rest⟩ := returns_of_bind ran
    cases handledWell : wasHandled.isSuccess with
    | false =>
      simp only [handledWell, Bool.not_false, if_true] at rest
      cases rest
      rw [halts_cons, List.forall_mem_cons]
      exact iff_of_true ⟨fun _ => ⟨close_closed next, rfl⟩, halts_nil⟩ ⟨id, List.forall_mem_nil _⟩
    | true =>
      have heeded : ¬ (StageResult.mainPacketHandler wasHandled).Fatal := by simp [StageResult.Fatal, handledWell]
      cases value : wasHandled.value with
      | false =>
        simp only [handledWell, value, Bool.not_true, Bool.not_false, Bool.false_eq_true, if_true, if_false] at rest
        obtain ⟨⟨last, further⟩, ranFurther, same⟩ := returns_of_bind rest
        cases same
        rw [halts_cons, List.forall_mem_cons, offerFurtherLogged_halts_iff ranFurther]
        exact and_congr_left' (iff_of_true (fun failed => absurd failed heeded) id)
      | true =>
        simp only [handledWell, value, Bool.not_true, Bool.false_eq_true, if_false] at rest
        cases rest
        rw [halts_cons, List.forall_mem_cons]
        exact iff_of_true ⟨fun failed => absurd failed heeded, halts_nil⟩ ⟨id, List.forall_mem_nil _⟩
  · rw [if_neg success] at ran
    by_cases invalid : packet.typeOrdinal ≠ .incompleteFrame
    · rw [if_pos invalid] at ran
      cases ran
      exact iff_of_true ⟨fun _ => ⟨close_closed c, rfl⟩, halts_nil⟩ (List.forall_mem_nil _)
    · rw [if_neg invalid] at ran
      cases ran
      exact iff_of_true ⟨fun failed => absurd failed.2 invalid, halts_nil⟩ (List.forall_mem_nil _)

/-- What the loop over the pipeline logs are answers of byte pipes, each fatal where it is
overlooked. -/
theorem readPipelineLogged_pipes {buffer : ByteBufferImpl} {pipes : List (DuplexPipe π)}
    {read : ByteBufferImpl × List (DuplexPipe π)}
    (ran : readPipelineLogged protocol buffer pipes = .ok (read, results)) :
    ∀ result ∈ results, result.Fatal ↔ result.Overlooked := by
  induction pipes generalizing buffer read results with
  | nil =>
    cases ran
    exact List.forall_mem_nil _
  | cons pipe later ih =>
    unfold readPipelineLogged at ran
    obtain ⟨⟨result, readPipe, left⟩, -, rest⟩ := returns_of_bind ran
    obtain ⟨⟨readLater, further⟩, ranLater, same⟩ := returns_of_bind rest
    cases same
    exact List.forall_mem_cons.mpr ⟨Iff.rfl, ih ranLater⟩

/-- A fatal error closes the connection and is the last thing that a call meets, exactly
where no byte pipe fails, and no further handler before the last one of the list fails
with `false` as its value. -/
theorem fatal_errors_stop_iff (protocol : Protocol π ρ ψ γ) (c after : PipedConnection π ρ γ) (page : List UInt8)
    (ran : handleNewBytes protocol c page = .ok after) :
    ∃ results, handleNewBytesLogged protocol c page = .ok (after, results) ∧
      (Halts StageResult.Fatal (after.readWriteCloser.closed = true) results ↔
        ∀ result ∈ results, ¬ result.Overlooked) := by
  rw [← handleNewBytesLogged_erased] at ran
  obtain ⟨⟨last, results⟩, logged, rfl⟩ := returns_of_map ran
  refine ⟨results, logged, ?_⟩
  unfold handleNewBytesLogged at logged
  obtain ⟨⟨received, read⟩, ranRead, rest⟩ := returns_of_bind logged
  obtain ⟨⟨handled, further⟩, ranFurther, same⟩ := returns_of_bind rest
  cases same
  unfold receiveLogged at ranRead
  obtain ⟨buffer, -, rest⟩ := returns_of_bind ranRead
  obtain ⟨⟨passed, answers⟩, ranPipes, same⟩ := returns_of_bind rest
  cases same
  unfold handlePacketLogged at ranFurther
  obtain ⟨⟨packet, bytePacketPipe, left⟩, -, rest⟩ := returns_of_bind ranFurther
  obtain ⟨⟨reached, dispatched⟩, ranDispatch, same⟩ := returns_of_bind rest
  cases same
  have pipes := readPipelineLogged_pipes ranPipes
  rw [halts_append (List.cons_ne_nil _ _), dispatchLogged_halts_iff ranDispatch, List.forall_mem_append,
    List.forall_mem_cons]
  apply and_congr
  · exact forall₂_congr fun result member => not_congr (pipes result member)
  · exact (and_iff_right id).symm

/-! ### Three calls -/

/-- Framed pipes, a packet pipe that answers its state, and handlers of which those of
ordinal 1 refuse a packet of ordinal 0. -/
private def refusing : Protocol FramedByteBytePipe (Errorable PacketHolder) Unit Unit where
  readPipe pipe input := do
    let (result, r) ← FramedByteBytePipe.read (fun _ input size => pure (successErrorable size.toNat, (), input))
      ⟨pipe.state, (), input, []⟩
    pure (result, { pipe with state := r.pipe }, r.input)
  writePipe pipe input := pure (successErrorable 0, pipe, input)
  readPacket packet input := pure (packet, packet, input)
  writePacket packet input _ := pure (successErrorable false, packet, input)
  callbacks := [[], [some fun _ user packet buffer =>
    pure (canNotReadPacketErrorable packet.expectedSize.toUInt64, user, buffer)]]

private def offering (maxReadSizes : List UInt32) (packet : Errorable PacketHolder) (mainPacketHandler : PacketHandler)
    (packetHandlers : List PacketHandler) : PipedConnection FramedByteBytePipe (Errorable PacketHolder) Unit where
  pipeline := maxReadSizes.map fun maxReadSize => {
    readerBuffer := .new (fun _ _ => 0) 4
    state := { maxReadSize := maxReadSize }
    writerBuffer := .new (fun _ _ => 0) 4 }
  bytePacketPipe := packet
  mainPacketHandler := mainPacketHandler
  packetHandlers := packetHandlers
  readerBuffer := .new (fun _ _ => 0) 4
  writerBuffer := .new (fun _ _ => 0) 4
  readWriteCloser := {}
  user := ()

/-- A packet that the main handler refuses, behind a pipe with a frame that is not all there. -/
private def refusedAtOnce : PipedConnection FramedByteBytePipe (Errorable PacketHolder) Unit :=
  offering [9] (successErrorable ⟨0, 0, 1⟩) ⟨1⟩ [⟨1⟩, ⟨0⟩]

/-- A length above the limit of a byte pipe. -/
private def tooLargeFrame : PipedConnection FramedByteBytePipe (Errorable PacketHolder) Unit :=
  offering [4] (incompleteFrameErrorable 0) ⟨0⟩ []

/-- A packet that two further handlers refuse. -/
private def refusedTwice : PipedConnection FramedByteBytePipe (Errorable PacketHolder) Unit :=
  offering [] (successErrorable ⟨0, 0, 1⟩) ⟨0⟩ [⟨1⟩, ⟨1⟩]

/-- An error of the main handler is the last answer of its call. -/
theorem refused_packet_stops : ∃ after results, handleNewBytes refusing refusedAtOnce [9] = .ok after ∧
    handleNewBytesLogged refusing refusedAtOnce [9] = .ok (after, results) ∧
    StageResult.mainPacketHandler (canNotReadPacketErrorable 1) ∈ results ∧
    Halts StageResult.Fatal (after.readWriteCloser.closed = true) results := by
  have answers : (handleNewBytesLogged refusing refusedAtOnce [9]).map Prod.snd =
      .ok [.byteBytePipe (incompleteByteFrameErrorable 9), .bytePacketPipe (successErrorable ⟨0, 0, 1⟩),
        .mainPacketHandler (canNotReadPacketErrorable 1)] := rfl
  obtain ⟨⟨after, results⟩, logged, rfl⟩ := returns_of_map answers
  have ran := @handleNewBytesLogged_erased _ _ _ _ refusing refusedAtOnce [9]
  rw [logged] at ran
  obtain ⟨results, loggedToo, halts⟩ := fatal_errors_stop_iff refusing refusedAtOnce after [9] ran.symm
  cases logged.symm.trans loggedToo
  refine ⟨after, _, ran.symm, logged, by simp, halts.mpr ?_⟩
  simp [StageResult.Overlooked, incompleteByteFrameErrorable, invalidArgumentErrorable, Errorable.isSuccess]

/-- Behind a byte pipe that fails the packet pipe is asked all the same, and the connection
stays open; of two handlers that refuse a packet both are asked. -/
theorem fatal_errors_passed_over :
    (∃ after results, handleNewBytesLogged refusing tooLargeFrame [9] = .ok (after, results) ∧
      results = [.byteBytePipe (invalidByteFrameErrorable 9), .bytePacketPipe (incompleteFrameErrorable 0)] ∧
      after.readWriteCloser.closed = false ∧
      ¬ Halts StageResult.Fatal (after.readWriteCloser.closed = true) results) ∧
    ∃ after results, handleNewBytesLogged refusing refusedTwice [9] = .ok (after, results) ∧
      results = [.bytePacketPipe (successErrorable ⟨0, 0, 1⟩), .mainPacketHandler (successErrorable false),
        .packetHandler 1 (canNotReadPacketErrorable 1), .packetHandler 0 (canNotReadPacketErrorable 1)] ∧
      ¬ Halts StageResult.Fatal (after.readWriteCloser.closed = true) results := by
  constructor
  · have answers : (handleNewBytesLogged refusing tooLargeFrame [9]).map
        (fun out => (out.2, out.1.readWriteCloser.closed)) =
        .ok ([.byteBytePipe (invalidByteFrameErrorable 9), .bytePacketPipe (incompleteFrameErrorable 0)], false) := rfl
    obtain ⟨⟨after, results⟩, logged, same⟩ := returns_of_map answers
    obtain ⟨rfl, stillOpen⟩ := Prod.mk.inj same
    refine ⟨after, _, logged, rfl, stillOpen, ?_⟩
    intro halts
    exact absurd (halts [] _ _ rfl ⟨rfl, by decide⟩).2 (List.cons_ne_nil _ _)
  · have answers : (handleNewBytesLogged refusing refusedTwice [9]).map
        Prod.snd = .ok [.bytePacketPipe (successErrorable ⟨0, 0, 1⟩), .mainPacketHandler (successErrorable false),
          .packetHandler 1 (canNotReadPacketErrorable 1), .packetHandler 0 (canNotReadPacketErrorable 1)] := rfl
    obtain ⟨⟨after, results⟩, logged, rfl⟩ := returns_of_map answers
    refine ⟨after, _, logged, rfl, ?_⟩
    intro halts
    exact absurd (halts [_, _] _ _ rfl rfl).2 (List.cons_ne_nil _ _)

end PipedConnection

end ShipNet
