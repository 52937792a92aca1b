import ShipNet.Connection
import ShipNet.FrameStream

/-! What one call of `HandleNewBytes` hands to the main packet handler: the
packet of one frame at most, however many frames it received. Over any run of
calls every frame has been handed over, when its call returns, exactly if no
call receives two. -/
namespace ShipNet
open Fallible ByteBufferImpl FramedByteBytePipe

namespace FramedBytePacketPipe

variable {δ : Type} (readPacket : ReadPacket δ) {pipe : FramedBytePacketPipe δ} {input : ByteBufferImpl}
  {cap : Nat} {frame rest : List UInt8}

/-- A frame that is there to its end is passed to `ReadPacket`. -/
theorem readFrame_there (held : Represents cap (frame ++ rest) input) {readableBytes : Nat}
    (announced : pipe.nextReadFrameLength.toNat = frame.length) (nonempty : frame ≠ [])
    (there : frame.length ≤ readableBytes) :
    readFrame readPacket pipe input readableBytes = (do
      let (packet, decoder, input) ← readPacket pipe.decoder input pipe.nextReadFrameLength
      pure {
        packet := packet
        pipe := { pipe with nextReadFrameLength := 0, decoder := decoder }
        input := input
        frame := frame }) := by
  have positive := List.length_pos_iff.mpr nonempty
  have ready : pipe.nextReadFrameLength ≠ 0 ∧ readableBytes ≥ pipe.nextReadFrameLength.toNat := by
    refine ⟨?_, announced ▸ there⟩
    intro zero
    rw [zero] at announced
    exact Nat.ne_of_gt positive announced.symm
  have taken : input.content.take pipe.nextReadFrameLength.toNat = frame := by
    rw [held.content, announced, List.take_left]
  rw [readFrame, if_pos ready, taken]

/-- A length and its frame. -/
theorem read_frame {announced : Framing.Frame} (allowed : Allowed pipe.maxReadSize announced)
    (nonempty : announced.body ≠ []) (fresh : pipe.nextReadFrameLength = 0)
    (held : Represents cap (announced.bytes ++ rest) input) :
    ∃ input', Represents cap (announced.body ++ rest) input' ∧
      read readPacket pipe input = (do
        let (packet, decoder, input) ← readPacket pipe.decoder input' (.ofNat announced.body.length)
        pure {
          packet := packet
          pipe := { pipe with nextReadFrameLength := 0, decoder := decoder }
          input := input
          frame := announced.body }) := by
  have readable : input.readableBytes = announced.bytes.length + rest.length := by
    rw [held.readable, List.length_append]
  have length : announced.bytes.length = announced.header.length + announced.body.length := by
    simp [Framing.Frame.bytes]
  have positive := List.length_pos_iff.mpr nonempty
  have bound := pipe.maxReadSize.toNat_lt
  have number : (UInt32.ofNat announced.body.length).toNat = announced.body.length :=
    UInt32.toNat_ofNat_of_lt' (Nat.lt_of_le_of_lt allowed.2 bound)
  have found : Base128.decode 5 (announced.bytes ++ rest) =
      .complete announced.body.length (announced.body ++ rest) := by
    rw [Framing.Frame.bytes, List.append_assoc, Base128.decode_terminated announced.terminated allowed.1,
      announced.announces]
  obtain ⟨⟨result, input'⟩, ran, answer, remaining⟩ := readVarInt_represents held
  rw [found] at answer remaining
  simp only at answer remaining
  subst answer
  have some : ¬ input.readableBytes = 0 := by omega
  have within : ¬ UInt32.ofNat announced.body.length > pipe.maxReadSize := by
    intro above
    have above : pipe.maxReadSize.toNat < (UInt32.ofNat announced.body.length).toNat := above
    rw [number] at above
    exact Nat.not_le.mpr above allowed.2
  refine ⟨input', remaining, ?_⟩
  simp only [read, if_pos fresh, if_neg some, ran, ok_bind, varIntResult, success_isSuccess, success_value,
    if_true]
  exact (if_neg within).trans (readFrame_there readPacket remaining number nonempty (by omega))

theorem read_nothing (fresh : pipe.nextReadFrameLength = 0) (held : Represents cap [] input) :
    read readPacket pipe input =
      .ok { packet := incompleteFrameErrorable 0, pipe := pipe, input := input, frame := [] } := by
  have empty : input.readableBytes = 0 := held.readable
  simp only [read, if_pos fresh, if_pos empty, pure_is_ok]

end FramedBytePacketPipe

namespace Connection

variable {π δ γ : Type} {app : Application π δ γ} {c after : Connection π δ γ}

/-- The frames whose packets the main packet handler has been handed, in order. -/
def handed (c : Connection π δ γ) : List (List UInt8) :=
  (c.offers.filter (fun offer => offer.receiver = .mainPacketHandler)).map Offer.frame

/-! ### What the calls leave alone -/

theorem receive_buffers {page : List UInt8} (received : receive app c page = .ok after) :
    ∃ readerBuffer pipeline, after = { c with readerBuffer := readerBuffer, pipeline := pipeline } := by
  unfold receive Incoming.receive at received
  obtain ⟨buffer, -, passed⟩ := returns_of_bind received
  obtain ⟨reached, -, rfl⟩ := returns_of_map passed
  exact ⟨_, _, rfl⟩

/-! ### What one call can do -/

/-- What a close and every offer to a further handler keeps, the loop keeps. -/
theorem offerFurther_keeps (kept : Connection π δ γ → Prop) {packet : PacketHolder}
    {frame : List UInt8} {handlers : List PacketHandler} (closes : ∀ c, kept c → kept c.close)
    (offers : ∀ c item wasHandled next, kept c →
      offer app c .packetHandlers item packet frame = .ok (wasHandled, next) → kept next)
    (ran : offerFurther app packet frame handlers c = .ok after) (holds : kept c) : kept after := by
  induction handlers generalizing c with
  | nil =>
    cases ran
    exact holds
  | cons item later ih =>
    rw [offerFurther_cons] at ran
    obtain ⟨⟨wasHandled, next⟩, offered, rest⟩ := returns_of_bind ran
    have still : kept (if !wasHandled.isSuccess then next.close else next) := by
      have reached := offers c item wasHandled next holds offered
      split
      · exact closes next reached
      · exact reached
    by_cases value : wasHandled.value = true
    · simp only [if_pos value] at rest
      cases rest
      exact still
    · simp only [if_neg value] at rest
      exact ih rest still

/-- A packet goes to the main handler, and from there to the further ones at
most; an error closes the connection at most. -/
theorem dispatch_cases {packet : Errorable PacketHolder} {frame : List UInt8}
    (ran : dispatch app c packet frame = .ok after) :
    (packet.isSuccess = true ∧ ∃ wasHandled next,
      offer app c .mainPacketHandler c.mainPacketHandler packet.value frame = .ok (wasHandled, next) ∧
      (after = next ∨ after = next.close ∨
        offerFurther app packet.value frame next.packetHandlers next = .ok after)) ∨
    (packet.isSuccess = false ∧ (after = c ∨ after = c.close)) := by
  rw [dispatch_eq] at ran
  cases success : packet.isSuccess with
  | true =>
    left
    rw [if_pos success] at ran
    obtain ⟨⟨wasHandled, next⟩, offered, rest⟩ := returns_of_bind ran
    refine ⟨rfl, wasHandled, next, offered, ?_⟩
    dsimp only at rest
    split at rest
    · cases rest
      exact .inr (.inl rfl)
    · split at rest
      · exact .inr (.inr rest)
      · cases rest
        exact .inl rfl
  | false =>
    right
    refine ⟨rfl, ?_⟩
    simp only [success, Bool.false_eq_true, if_false] at ran
    split at ran
    · cases ran
      exact .inr rfl
    · cases ran
      exact .inl rfl

/-- A call replaces buffers and the state of the pipes; the rest is the work of
`dispatch`. -/
theorem handleNewBytes_cases {page : List UInt8} (ran : handleNewBytes app c page = .ok after) :
    ∃ readerBuffer pipeline pipe packet frame,
      dispatch app { c with
        readerBuffer := readerBuffer
        pipeline := pipeline
        bytePacketPipe := pipe } packet frame = .ok after := by
  rw [handleNewBytes_eq] at ran
  obtain ⟨reached, received, handled⟩ := returns_of_bind ran
  obtain ⟨answer, -, dispatched⟩ := returns_of_bind handled
  obtain ⟨readerBuffer, pipeline, replaced⟩ := setPacketBuffer_buffers reached answer.input
  obtain ⟨readerBuffer', pipeline', afterwards⟩ := receive_buffers received
  rw [replaced] at dispatched
  subst afterwards
  exact ⟨readerBuffer, pipeline, answer.pipe, answer.packet, answer.frame, dispatched⟩

/-! ### At most one frame a call -/

private theorem close_handed (c : Connection π δ γ) : c.close.handed = c.handed := rfl

private theorem offer_offers {receiver : Receiver} {handler : PacketHandler} {packet : PacketHolder}
    {frame : List UInt8} {result : Errorable Bool}
    (ran : offer app c receiver handler packet frame = .ok (result, after)) :
    after.offers = c.offers ++ [⟨receiver, packet, frame⟩] := by
  rw [offer_eq] at ran
  obtain ⟨⟨wasHandled, user, buffer, invocations⟩, -, same⟩ := returns_of_bind ran
  cases same
  rfl

private theorem offerFurther_handed {packet : PacketHolder} {frame : List UInt8}
    {handlers : List PacketHandler} (ran : offerFurther app packet frame handlers c = .ok after) :
    after.handed = c.handed := by
  apply offerFurther_keeps (fun reached => reached.handed = c.handed) ?_ ?_ ran rfl
  · intro reached same
    rw [close_handed, same]
  · intro reached item wasHandled next same offered
    rw [← same]
    simp [handed, offer_offers offered]

private theorem dispatch_handed {packet : Errorable PacketHolder} {frame : List UInt8}
    (ran : dispatch app c packet frame = .ok after) :
    after.handed = if packet.isSuccess then c.handed ++ [frame] else c.handed := by
  rcases dispatch_cases ran with ⟨success, wasHandled, next, offered, reached⟩ | ⟨failure, reached⟩
  · have one : next.handed = c.handed ++ [frame] := by
      simp [handed, offer_offers offered]
    rw [if_pos success, ← one]
    rcases reached with rfl | rfl | further
    · rfl
    · exact close_handed next
    · exact offerFurther_handed further
  · rw [failure]
    rcases reached with rfl | rfl
    · rfl
    · exact close_handed c

/-- A call of `HandleNewBytes` hands over at most one frame. -/
theorem handleNewBytes_handed {page : List UInt8} (ran : handleNewBytes app c page = .ok after) :
    after.handed = c.handed ∨ ∃ frame, after.handed = c.handed ++ [frame] := by
  obtain ⟨readerBuffer, pipeline, pipe, packet, frame, dispatched⟩ := handleNewBytes_cases ran
  have handed := dispatch_handed dispatched
  cases success : packet.isSuccess with
  | true =>
    rw [success, if_pos rfl] at handed
    exact .inr ⟨frame, handed⟩
  | false =>
    rw [success] at handed
    exact .inl handed

/-! ### One frame a call -/

/-- `ReadPacket` succeeds, and with the main handler it takes exactly the frame.
Where that one declines, no further handler takes anything. -/
def ConsumesFrames (app : Application π δ γ) (main : PacketHandler) (further : List PacketHandler) : Prop :=
  ∀ (cap : Nat) (frame rest : List UInt8) (input : ByteBufferImpl) (decoder : δ) (user : γ),
    Represents cap (frame ++ rest) input → frame ≠ [] → frame.length < 2 ^ 32 →
    Returns (app.readPacket decoder input (.ofNat frame.length)) fun read =>
      read.1.isSuccess = true ∧
      Returns (main.handle app.callbacks user read.1.value read.2.2) fun out =>
        out.1.isSuccess = true ∧ Represents cap rest out.2.2.1 ∧
        (out.1.value = false → ∀ item ∈ further, ∀ (user : γ) (input : ByteBufferImpl),
          Represents cap rest input →
          Returns (item.handle app.callbacks user read.1.value input) fun out =>
            Represents cap rest out.2.2.1)

/-- A connection without byte pipes, with these handlers, and no frame announced. -/
structure Plain (maxReadSize : UInt32) (main : PacketHandler) (further : List PacketHandler)
    (c : Connection π δ γ) : Prop where
  pipeline : c.pipeline = []
  fresh : c.bytePacketPipe.nextReadFrameLength = 0
  limit : c.bytePacketPipe.maxReadSize = maxReadSize
  main : c.mainPacketHandler = main
  further : c.packetHandlers = further

/-- Such a connection with these bytes in its buffer. -/
structure Resting (cap : Nat) (maxReadSize : UInt32) (main : PacketHandler) (further : List PacketHandler)
    (bytes : List UInt8) (c : Connection π δ γ) : Prop extends Plain maxReadSize main further c where
  held : Represents cap bytes c.readerBuffer

variable {cap : Nat} {maxReadSize : UInt32} {main : PacketHandler} {further : List PacketHandler}
  {bytes rest : List UInt8}

theorem Plain.packetBuffer (plain : Plain maxReadSize main further c) : c.packetBuffer = c.readerBuffer :=
  packetBuffer_plain plain.pipeline

theorem Plain.setPacketBuffer (plain : Plain maxReadSize main further c) (buffer : ByteBufferImpl) :
    c.setPacketBuffer buffer = { c with readerBuffer := buffer } :=
  setPacketBuffer_plain plain.pipeline buffer

private theorem Resting.close (resting : Resting cap maxReadSize main further bytes c) :
    Resting cap maxReadSize main further bytes c.close := by
  obtain ⟨⟨pipeline, fresh, limit, main, further⟩, held⟩ := resting
  exact ⟨⟨pipeline, fresh, limit, main, further⟩, held⟩

/-- An offer to a handler that leaves `rest`. -/
private theorem offer_resting (plain : Plain maxReadSize main further c)
    (receiver : Receiver) {handler : PacketHandler} {packet : PacketHolder} (frame : List UInt8)
    (post : Errorable Bool → Prop)
    (handles : Returns (handler.handle app.callbacks c.user packet c.readerBuffer) fun out =>
      post out.1 ∧ Represents cap rest out.2.2.1) :
    Returns (offer app c receiver handler packet frame) fun out =>
      post out.1 ∧ Resting cap maxReadSize main further rest out.2 ∧
        out.2.readWriteCloser = c.readWriteCloser := by
  obtain ⟨⟨wasHandled, user, buffer, invocations⟩, ran, answer, held⟩ := handles
  rw [offer_eq, plain.packetBuffer, ran]
  refine (returns_ok _ _).mpr ⟨answer, ?_⟩
  rw [plain.setPacketBuffer]
  exact ⟨⟨⟨plain.pipeline, plain.fresh, plain.limit, plain.main, plain.further⟩, held⟩, rfl⟩

/-- Further handlers that take nothing. -/
private theorem offerFurther_resting {items : List PacketHandler} {packet : PacketHolder}
    {frame : List UInt8}
    (nothing : ∀ item ∈ items, ∀ (user : γ) (input : ByteBufferImpl), Represents cap rest input →
      Returns (item.handle app.callbacks user packet input) fun out => Represents cap rest out.2.2.1)
    (resting : Resting cap maxReadSize main further rest c) :
    Returns (offerFurther app packet frame items c) (Resting cap maxReadSize main further rest) := by
  induction items generalizing c with
  | nil => exact (returns_ok _ _).mpr resting
  | cons item later ih =>
    have handles := (nothing item List.mem_cons_self c.user c.readerBuffer resting.held).mono
      fun out held => And.intro trivial held
    obtain ⟨⟨wasHandled, next⟩, offered, -, served, -⟩ :=
      offer_resting resting.toPlain .packetHandlers frame (fun _ => True) handles
    have closed : Resting cap maxReadSize main further rest
        (if !wasHandled.isSuccess then next.close else next) := by
      split
      · exact served.close
      · exact served
    simp only [offerFurther_cons, offered, ok_bind]
    by_cases value : wasHandled.value = true
    · rw [if_pos value]
      exact (returns_ok _ _).mpr closed
    · rw [if_neg value]
      exact ih (fun item member => nothing item (List.mem_cons_of_mem _ member)) closed

/-- The calls of `HandleNewBytes` for these pages. -/
def handlePages (app : Application π δ γ) (c : Connection π δ γ) (pages : List (List UInt8)) :
    Exec (Connection π δ γ) :=
  pages.foldlM (handleNewBytes app) c

/-- The packet that `ReadPacket` made of a frame, on its way through the handlers. -/
theorem dispatch_resting {packet : Errorable PacketHolder} {frame : List UInt8}
    (plain : Plain maxReadSize main further c) (success : packet.isSuccess = true)
    (handles : Returns (main.handle app.callbacks c.user packet.value c.readerBuffer) fun out =>
      out.1.isSuccess = true ∧ Represents cap rest out.2.2.1 ∧
      (out.1.value = false → ∀ item ∈ further, ∀ (user : γ) (input : ByteBufferImpl),
        Represents cap rest input →
        Returns (item.handle app.callbacks user packet.value input) fun out =>
          Represents cap rest out.2.2.1)) :
    Returns (dispatch app c packet frame) fun next =>
      Resting cap maxReadSize main further rest next ∧ next.handed = c.handed ++ [frame] ∧
        (further = [] → next.readWriteCloser = c.readWriteCloser) := by
  have arrived : Returns (dispatch app c packet frame) fun next =>
      Resting cap maxReadSize main further rest next ∧
        (further = [] → next.readWriteCloser = c.readWriteCloser) := by
    obtain ⟨⟨wasHandled, next⟩, offered, ⟨handled, nothing⟩, served, sameCloser⟩ :=
      offer_resting plain .mainPacketHandler frame
        (fun wasHandled => wasHandled.isSuccess = true ∧ (wasHandled.value = false →
          ∀ item ∈ further, ∀ (user : γ) (input : ByteBufferImpl), Represents cap rest input →
          Returns (item.handle app.callbacks user packet.value input) fun out =>
            Represents cap rest out.2.2.1))
        (handles.mono fun out held => ⟨⟨held.1, held.2.2⟩, held.2.1⟩)
    simp only at handled nothing served sameCloser
    rw [← plain.main] at offered
    simp only [dispatch_eq, success, offered, handled, ok_bind, if_true, Bool.not_true, Bool.false_eq_true,
      if_false]
    cases value : wasHandled.value with
    | true => exact (returns_ok _ _).mpr ⟨served, fun _ => sameCloser⟩
    | false =>
      rw [← served.further] at nothing
      obtain ⟨final, ran, left⟩ := offerFurther_resting (nothing value) served
      refine ⟨final, ran, left, ?_⟩
      intro alone
      rw [served.further, alone] at ran
      cases ran
      exact sameCloser
  obtain ⟨next, ran, served, sameCloser⟩ := arrived
  refine ⟨next, ran, served, ?_, sameCloser⟩
  rw [dispatch_handed ran, if_pos success]

theorem Plain.receive_page (plain : Plain maxReadSize main further c) {page : List UInt8}
    {buffer : ByteBufferImpl} (wrote : c.readerBuffer.writeBytes page = .ok buffer) :
    receive app c page = .ok { c with readerBuffer := buffer } := by
  rw [receive_plain plain.pipeline, wrote]
  rfl

/-- A page of one frame. -/
theorem handleNewBytes_frame (consumes : ConsumesFrames app main further)
    (resting : Resting cap maxReadSize main further [] c) {frame : Framing.Frame}
    (allowed : Allowed maxReadSize frame) (nonempty : frame.body ≠ []) :
    Returns (handleNewBytes app c frame.bytes) fun next =>
      Resting cap maxReadSize main further [] next ∧ next.handed = c.handed ++ [frame.body] ∧
        (further = [] → next.readWriteCloser = c.readWriteCloser) := by
  obtain ⟨buffer, wrote, filled⟩ := writeBytes_represents resting.held frame.bytes
  have reached : Plain maxReadSize main further { c with readerBuffer := buffer } :=
    ⟨resting.pipeline, resting.fresh, resting.limit, resting.main, resting.further⟩
  have whole : Represents cap (frame.bytes ++ []) buffer := by
    rw [List.append_nil]
    exact filled
  obtain ⟨input, remaining, answered⟩ := FramedBytePacketPipe.read_frame app.readPacket
    (resting.limit ▸ allowed) nonempty resting.fresh whole
  obtain ⟨⟨packet, decoder, input⟩, read, success, handles⟩ :=
    consumes cap frame.body [] input c.bytePacketPipe.decoder c.user remaining nonempty
      (Nat.lt_of_le_of_lt allowed.2 maxReadSize.toNat_lt)
  rw [read, ok_bind] at answered
  simp only [handleNewBytes_eq, resting.receive_page wrote, ok_bind, reached.packetBuffer, answered, pure_is_ok,
    reached.setPacketBuffer]
  exact dispatch_resting ⟨resting.pipeline, rfl, resting.limit, resting.main, resting.further⟩ success handles

/-- A page without bytes. -/
theorem handleNewBytes_nothing (app : Application π δ γ)
    (resting : Resting cap maxReadSize main further [] c) :
    Returns (handleNewBytes app c []) fun next =>
      Resting cap maxReadSize main further [] next ∧ next.handed = c.handed ∧
        next.readWriteCloser = c.readWriteCloser := by
  obtain ⟨buffer, wrote, filled⟩ := writeBytes_represents resting.held []
  have reached : Plain maxReadSize main further { c with readerBuffer := buffer } :=
    ⟨resting.pipeline, resting.fresh, resting.limit, resting.main, resting.further⟩
  have answered := FramedBytePacketPipe.read_nothing app.readPacket resting.fresh filled
  have incomplete : (incompleteFrameErrorable 0).isSuccess = false := rfl
  have waiting : ¬ (incompleteFrameErrorable 0).typeOrdinal ≠ .incompleteFrame := by
    simp [incompleteFrameErrorable]
  simp only [handleNewBytes_eq, resting.receive_page wrote, ok_bind, reached.packetBuffer,
    answered, reached.setPacketBuffer, dispatch_eq, incomplete, Bool.false_eq_true, if_false, if_neg waiting,
    pure_is_ok, returns_ok]
  exact ⟨⟨reached, filled⟩, rfl, trivial⟩

/-! ### Any grouping of frames -/

/-- The frames of a call, each of them allowed and with a body. -/
def Deliverable (maxReadSize : UInt32) (group : List Framing.Frame) : Prop :=
  ∀ frame ∈ group, Allowed maxReadSize frame ∧ frame.body ≠ []

theorem handlePages_append (app : Application π δ γ) (c : Connection π δ γ) (pages more : List (List UInt8)) :
    handlePages app c (pages ++ more) = (do handlePages app (← handlePages app c pages) more) :=
  List.foldlM_append

theorem handlePages_single (app : Application π δ γ) (c : Connection π δ γ) (page : List UInt8) :
    handlePages app c [page] = handleNewBytes app c page := by
  simp only [handlePages, List.foldlM_cons, List.foldlM_nil, bind_pure]

private theorem handleNewBytes_group (consumes : ConsumesFrames app main further)
    (resting : Resting cap maxReadSize main further [] c) {group : List Framing.Frame}
    (deliverable : Deliverable maxReadSize group) (single : group.length ≤ 1) :
    Returns (handleNewBytes app c (Framing.stream group)) fun next =>
      Resting cap maxReadSize main further [] next ∧
        next.handed = c.handed ++ group.map Framing.Frame.body := by
  cases group with
  | nil =>
    obtain ⟨next, ran, left, same, -⟩ := handleNewBytes_nothing app resting
    exact ⟨next, ran, left, by simp [same]⟩
  | cons frame others =>
    have alone : others = [] := List.length_eq_zero_iff.mp (Nat.le_zero.mp (Nat.le_of_succ_le_succ single))
    subst alone
    obtain ⟨allowed, nonempty⟩ := deliverable frame List.mem_cons_self
    have bytes : Framing.stream [frame] = frame.bytes := by simp [Framing.stream]
    obtain ⟨next, ran, left, handed, -⟩ := handleNewBytes_frame consumes resting allowed nonempty
    rw [bytes]
    exact ⟨next, ran, left, handed⟩

private theorem handlePages_groups (consumes : ConsumesFrames app main further)
    (resting : Resting cap maxReadSize main further [] c) {groups : List (List Framing.Frame)}
    (deliverable : ∀ group ∈ groups, Deliverable maxReadSize group)
    (single : ∀ group ∈ groups, group.length ≤ 1) :
    Returns (handlePages app c (groups.map Framing.stream)) fun next =>
      next.handed = c.handed ++ groups.flatten.map Framing.Frame.body := by
  induction groups generalizing c with
  | nil => simp [handlePages]
  | cons group later ih =>
    obtain ⟨next, ran, left, handed⟩ := handleNewBytes_group consumes resting
      (deliverable group List.mem_cons_self) (single group List.mem_cons_self)
    have rest := ih left (fun group member => deliverable group (List.mem_cons_of_mem _ member))
      (fun group member => single group (List.mem_cons_of_mem _ member))
    simp only [handlePages, List.map_cons, List.foldlM_cons, ran, ok_bind]
    refine rest.mono ?_
    intro final same
    rw [same, handed, List.flatten_cons, List.map_append, List.append_assoc]

/-- In every call all frames received so far have been handed over, once each
and in order, exactly if no call receives two. -/
theorem every_frame_handed_iff (consumes : ConsumesFrames app main further) (heap : Nat → Block UInt8)
    (positive : 0 < cap) (maxReadSize : UInt32) (decoder : δ) (user : γ)
    (groups : List (List Framing.Frame)) (deliverable : ∀ group ∈ groups, Deliverable maxReadSize group) :
    (∀ before later, groups = before ++ later →
      Returns (handlePages app (new heap cap [] { maxReadSize := maxReadSize, decoder := decoder }
          main further user) (before.map Framing.stream)) fun c =>
        c.handed = before.flatten.map Framing.Frame.body) ↔
    ∀ group ∈ groups, group.length ≤ 1 := by
  constructor
  · intro delivered group member
    obtain ⟨before, later, split⟩ := List.append_of_mem member
    obtain ⟨first, ranFirst, handedFirst⟩ := delivered before (group :: later) split
    obtain ⟨second, ranSecond, handedSecond⟩ := delivered (before ++ [group]) later (by simp [split])
    -- the last of these calls hands over one frame at most
    rw [List.map_append, handlePages_append, ranFirst, ok_bind] at ranSecond
    have ran := (handlePages_single app first (Framing.stream group)).symm.trans ranSecond
    rw [List.flatten_append, List.map_append, ← handedFirst] at handedSecond
    have lengths := congrArg List.length handedSecond
    rcases handleNewBytes_handed ran with same | ⟨frame, one⟩
    · rw [same] at lengths
      simp at lengths
      simp [lengths]
    · rw [one] at lengths
      simp at lengths
      omega
  · intro single before later split
    have resting : Resting cap maxReadSize main further []
        (new heap cap ([] : List (ByteBytePipe π)) { maxReadSize := maxReadSize, decoder := decoder }
          main further user) :=
      ⟨⟨rfl, rfl, rfl, rfl, rfl⟩, represents_new heap positive⟩
    exact handlePages_groups consumes resting
      (fun group member => deliverable group (split ▸ List.mem_append_left _ member))
      (fun group member => single group (split ▸ List.mem_append_left _ member))

/-- An application whose `ReadPacket` passes over the frame, and without callbacks. -/
def skimming : Application Unit Unit Unit where
  readBytePipe := fun pipe input => pure (successErrorable 0, pipe, input)
  readPacket := fun decoder input frameSize => do
    let input ← input.skim frameSize.toNat
    pure (successErrorable ⟨0, 0, 0⟩, decoder, input)
  callbacks := []

theorem skimming_consumes (main : PacketHandler) : ConsumesFrames skimming main [] := by
  intro cap frame rest input decoder user held _ bound
  have length : (UInt32.ofNat frame.length).toNat = frame.length := UInt32.toNat_ofNat_of_lt' bound
  have enough : frame.length ≤ (frame ++ rest).length := by simp
  obtain ⟨after, ran, remaining⟩ := skim_represents held enough
  rw [List.drop_left] at remaining
  simp only [skimming, length, ran, ok_bind, pure_is_ok, returns_ok]
  refine ⟨rfl, ?_⟩
  simp only [PacketHandler.handle, PacketHandler.lookup, List.length_nil, ge_iff_le, Nat.zero_le, if_true,
    pure_is_ok, returns_ok]
  exact ⟨rfl, remaining, by simp⟩

/-- A frame of one byte. -/
def shortFrame (byte : UInt8) : Framing.Frame where
  header := [1]
  body := [byte]
  terminated := (by decide : (1 : UInt8).toNat < 128)
  announces := rfl

theorem shortFrames_deliverable (groups : List (List UInt8)) :
    ∀ group ∈ groups.map (List.map shortFrame), Deliverable 10 group := by
  intro group member frame inside
  obtain ⟨bytes, -, rfl⟩ := List.mem_map.mp member
  obtain ⟨byte, -, rfl⟩ := List.mem_map.mp inside
  simp [Allowed, shortFrame]

/-- Two frames in calls of their own, with a call in between that receives nothing. -/
theorem every_frame_handed_one_by_one :
    Returns (handlePages skimming (new (fun _ _ => 0) 2 [] { maxReadSize := 10, decoder := () } ⟨0⟩ [] ())
      [[1, 7], [], [1, 8]]) fun c => c.handed = [[7], [8]] := by
  have delivered := (every_frame_handed_iff (skimming_consumes ⟨0⟩) (fun _ _ => 0) (by decide : 0 < 2)
    10 () () _ (shortFrames_deliverable [[7], [], [8]])).mpr (by simp)
  exact delivered _ [] (List.append_nil _).symm

/-- The second of two frames received together is not handed over. -/
theorem coalesced_frame_not_handed :
    ¬ ∀ (π δ γ : Type) (app : Application π δ γ) (main : PacketHandler) (further : List PacketHandler)
        (heap : Nat → Block UInt8) (cap : Nat) (maxReadSize : UInt32) (decoder : δ) (user : γ)
        (groups : List (List Framing.Frame)),
      ConsumesFrames app main further → 0 < cap →
      (∀ group ∈ groups, Deliverable maxReadSize group) →
      ∀ before later, groups = before ++ later →
        Returns (handlePages app (new heap cap [] { maxReadSize := maxReadSize, decoder := decoder }
            main further user) (before.map Framing.stream)) fun c =>
          c.handed = before.flatten.map Framing.Frame.body := by
  intro delivered
  obtain ⟨after, ran, handed⟩ := delivered Unit Unit Unit skimming ⟨0⟩ [] (fun _ _ => 0) 2 10 () ()
    _ (skimming_consumes ⟨0⟩) (by decide) (shortFrames_deliverable [[7, 8]]) _ [] (List.append_nil _).symm
  have ran := (handlePages_single skimming _ _).symm.trans ran
  rcases handleNewBytes_handed ran with same | ⟨frame, one⟩
  · rw [handed] at same
    cases same
  · rw [handed] at one
    cases one

end Connection

end ShipNet
