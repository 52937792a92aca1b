import ShipNet.PacketDelivery
import ShipNet.WholeFrames

/-! `HandleNewBytes` on a stream of frames that arrives in any pieces. A call hands over
the next frame or none, and as long as no call comes upon part of a length, or counts the
bytes of a length for those of a body, the frames follow each other as they were sent. -/
namespace ShipNet
open Fallible ByteBufferImpl FramedByteBytePipe

namespace FramedBytePacketPipe

variable {δ : Type} (readPacket : ReadPacket δ) {pipe : FramedBytePacketPipe δ} {input : ByteBufferImpl}
  {cap : Nat} {bytes rest : List UInt8}

/-- A frame that is announced and not there to its end is waited for. -/
theorem read_waits (announced : pipe.nextReadFrameLength ≠ 0)
    (short : input.readableBytes < pipe.nextReadFrameLength.toNat) :
    read readPacket pipe input = .ok {
      packet := incompleteFrameErrorable (.ofNat input.readableBytes)
      pipe := pipe
      input := input
      frame := [] } := by
  have notYet : ¬ (pipe.nextReadFrameLength ≠ 0 ∧ input.readableBytes ≥ pipe.nextReadFrameLength.toNat) := by
    rintro ⟨-, there⟩
    exact Nat.not_lt.mpr there short
  rw [read, if_neg announced, readFrame, if_neg notYet, pure_is_ok]

/-- A length that is more than all bytes, those of the length among them, is kept. -/
theorem read_announces (fresh : pipe.nextReadFrameLength = 0) (held : Represents cap bytes input) {number : Nat}
    (found : Base128.decode 5 bytes = .complete number rest) (allowed : number ≤ pipe.maxReadSize.toNat)
    (short : bytes.length < number) :
    ∃ input', Represents cap rest input' ∧ read readPacket pipe input = .ok {
      packet := incompleteFrameErrorable (.ofNat bytes.length)
      pipe := { pipe with nextReadFrameLength := .ofNat number }
      input := input'
      frame := [] } := by
  obtain ⟨⟨result, input'⟩, ran, answer, remaining⟩ := readVarInt_represents held
  rw [found] at answer remaining
  simp only at answer remaining
  subst answer
  have length : (UInt32.ofNat number).toNat = number :=
    UInt32.toNat_ofNat_of_lt' (Nat.lt_of_le_of_lt allowed pipe.maxReadSize.toNat_lt)
  have some : ¬ bytes.length = 0 := by
    intro empty
    rw [List.length_eq_zero_iff] at empty
    subst empty
    cases found
  have within : ¬ UInt32.ofNat number > pipe.maxReadSize := by
    intro above
    have above : pipe.maxReadSize.toNat < (UInt32.ofNat number).toNat := above
    rw [length] at above
    exact Nat.not_le.mpr above allowed
  have notYet : ¬ (UInt32.ofNat number ≠ 0 ∧ bytes.length ≥ (UInt32.ofNat number).toNat) := by
    rw [length]
    rintro ⟨-, there⟩
    exact Nat.not_lt.mpr there short
  refine ⟨input', remaining, ?_⟩
  simp only [read, if_pos fresh, held.readable, if_neg some, ran, ok_bind, varIntResult, success_isSuccess,
    success_value, if_true, readFrame, pure_is_ok]
  exact (if_neg within).trans (if_neg notYet)

end FramedBytePacketPipe

namespace Connection

variable {π δ γ : Type} {app : Application π δ γ} {c : Connection π δ γ} {cap : Nat} {maxReadSize : UInt32}
  {main : PacketHandler} {further : List PacketHandler} {bytes page coming : List UInt8} {frames : List Framing.Frame}

/-- A connection without byte pipes, with these handlers, these bytes in its buffer and
this length announced, or zero. -/
structure Standing (cap : Nat) (maxReadSize : UInt32) (main : PacketHandler) (further : List PacketHandler)
    (announced : Nat) (bytes : List UInt8) (c : Connection π δ γ) : Prop where
  pipeline : c.pipeline = []
  announced : c.bytePacketPipe.nextReadFrameLength.toNat = announced
  limit : c.bytePacketPipe.maxReadSize = maxReadSize
  main : c.mainPacketHandler = main
  further : c.packetHandlers = further
  held : Represents cap bytes c.readerBuffer

theorem Resting.standing (resting : Resting cap maxReadSize main further bytes c) :
    Standing cap maxReadSize main further 0 bytes c :=
  ⟨resting.pipeline, by rw [resting.fresh]; rfl, resting.limit, resting.main, resting.further, resting.held⟩

/-- The answer to a page is that of the packet pipe, on the buffer with the page. -/
theorem Standing.handleNewBytes (app : Application π δ γ) {announced : Nat}
    (standing : Standing cap maxReadSize main further announced bytes c) (page : List UInt8) :
    ∃ buffer, Represents cap (bytes ++ page) buffer ∧ Connection.handleNewBytes app c page = (do
      let answer ← c.bytePacketPipe.read app.readPacket buffer
      dispatch app { c with readerBuffer := answer.input, bytePacketPipe := answer.pipe }
        answer.packet answer.frame) := by
  obtain ⟨buffer, wrote, filled⟩ := writeBytes_represents standing.held page
  refine ⟨buffer, filled, ?_⟩
  have plain : ({ c with readerBuffer := buffer } : Connection π δ γ).pipeline = [] := standing.pipeline
  simp only [handleNewBytes_eq, receive_plain standing.pipeline, wrote, ok_bind, pure_is_ok, packetBuffer_plain plain,
    setPacketBuffer_plain plain]

/-- An answer that only waits leaves everything else. -/
theorem dispatch_waits (app : Application π δ γ) (c : Connection π δ γ) (argument : UInt64) (frame : List UInt8) :
    dispatch app c (incompleteFrameErrorable argument) frame = .ok c := by
  have waiting : ¬ (incompleteFrameErrorable argument).typeOrdinal ≠ .incompleteFrame := by
    simp [incompleteFrameErrorable]
  have incomplete : (incompleteFrameErrorable argument).isSuccess = false := rfl
  rw [dispatch_eq, incomplete, if_neg (by simp), if_neg waiting, pure_is_ok]

/-- A frame that `ReadPacket` is called for on its first byte goes to the handlers. -/
theorem Standing.serves {announced : Nat} (standing : Standing cap maxReadSize main further announced bytes c)
    (consumes : ConsumesFrames app main further) {body rest : List UInt8} (nonempty : body ≠ [])
    (short : body.length < 2 ^ 32) {pipe : FramedBytePacketPipe δ} (limit : pipe.maxReadSize = maxReadSize)
    (buffer : ByteBufferImpl) {input : ByteBufferImpl} (held : Represents cap (body ++ rest) input)
    (answered : c.bytePacketPipe.read app.readPacket buffer = (do
      let (packet, decoder, input) ← app.readPacket pipe.decoder input (.ofNat body.length)
      pure {
        packet := packet
        pipe := { pipe with nextReadFrameLength := 0, decoder := decoder }
        input := input
        frame := body })) :
    Returns (do
      let answer ← c.bytePacketPipe.read app.readPacket buffer
      dispatch app { c with readerBuffer := answer.input, bytePacketPipe := answer.pipe }
        answer.packet answer.frame) fun next =>
      Resting cap maxReadSize main further rest next ∧ next.handed = c.handed ++ [body] := by
  obtain ⟨⟨packet, decoder, after⟩, read, success, handles⟩ :=
    consumes cap body rest input pipe.decoder c.user held nonempty short
  simp only [answered, read, ok_bind, pure_is_ok]
  refine (dispatch_resting ?_ success handles).mono fun next done => ⟨done.1, done.2.1⟩
  exact ⟨standing.pipeline, rfl, limit, standing.main, standing.further⟩

/-! ### Where a stream stands -/

/-- These frames have not been handed over. Their bytes are the ones in the buffer, after
a length that has been read, and the ones that are still to come. -/
inductive Awaits (cap : Nat) (maxReadSize : UInt32) (main : PacketHandler) (further : List PacketHandler)
    (c : Connection π δ γ) : List Framing.Frame → List UInt8 → Prop
  | between {frames : List Framing.Frame} {bytes coming : List UInt8}
      (standing : Standing cap maxReadSize main further 0 bytes c) (joined : bytes ++ coming = Framing.stream frames) :
      Awaits cap maxReadSize main further c frames coming
  | within {frame : Framing.Frame} {later : List Framing.Frame} {bytes coming : List UInt8}
      (standing : Standing cap maxReadSize main further frame.body.length bytes c)
      (short : bytes.length < frame.body.length) (joined : bytes ++ coming = frame.body ++ Framing.stream later) :
      Awaits cap maxReadSize main further c (frame :: later) coming

/-- The call with this page does not come upon a length that is cut off, nor upon a body
that lacks no more bytes than its length has. -/
def Ripe (c : Connection π δ γ) (page : List UInt8) : Prop :=
  (c.bytePacketPipe.nextReadFrameLength = 0 → c.readerBuffer.content ++ page = [] ∨
    Base128.decode 5 (c.readerBuffer.content ++ page) ≠ .incomplete) ∧
  ¬ CountsLength c.bytePacketPipe.nextReadFrameLength (· ≤ c.bytePacketPipe.maxReadSize)
    (c.readerBuffer.content ++ page)

/-- The first of these frames has come to its end. -/
def Ended (frames : List Framing.Frame) (coming : List UInt8) : Prop :=
  frames ≠ [] ∧ coming.length ≤ (Framing.stream frames.tail).length

/-- What a call makes of the frames that are awaited: the first one is handed over if it
is there to its end, and none otherwise. -/
inductive Advance (cap : Nat) (maxReadSize : UInt32) (main : PacketHandler) (further : List PacketHandler)
    (before next : Connection π δ γ) (frames : List Framing.Frame) (coming : List UInt8) : Prop
  | waited (short : ¬ Ended frames coming) (awaits : Awaits cap maxReadSize main further next frames coming)
      (handed : next.handed = before.handed)
  | handed (frame : Framing.Frame) (later : List Framing.Frame) (first : frames = frame :: later)
      (there : Ended frames coming) (awaits : Awaits cap maxReadSize main further next later coming)
      (handed : next.handed = before.handed ++ [frame.body])

private theorem ended_of_split {frame : Framing.Frame} {later : List Framing.Frame} {behind : List UInt8}
    (split : Framing.stream later = behind ++ coming) : Ended (frame :: later) coming := by
  refine ⟨List.cons_ne_nil _ _, ?_⟩
  rw [List.tail_cons, split, List.length_append]
  exact Nat.le_add_left _ _

private theorem not_ended_of_short {frame : Framing.Frame} {later : List Framing.Frame} {front : List UInt8}
    (joined : front ++ coming = frame.body ++ Framing.stream later) (short : front.length < frame.body.length) :
    ¬ Ended (frame :: later) coming := by
  rintro ⟨-, there⟩
  have lengths := congrArg List.length joined
  simp only [List.length_append] at lengths
  rw [List.tail_cons] at there
  omega

private theorem not_ended_of_whole (joined : coming = Framing.stream frames) : ¬ Ended frames coming := by
  rintro ⟨some, there⟩
  cases frames with
  | nil => exact some rfl
  | cons frame later =>
    have positive := List.length_pos_iff.mpr frame.terminated.ne_nil
    have length : (Framing.stream (frame :: later)).length =
        frame.header.length + frame.body.length + (Framing.stream later).length := by
      simp only [Framing.stream, Framing.Frame.bytes, List.flatMap_cons, List.length_append]
    rw [joined, length, List.tail_cons] at there
    omega

private theorem advance_within (consumes : ConsumesFrames app main further) {frame : Framing.Frame}
    {later : List Framing.Frame} (allowed : Allowed maxReadSize frame) (nonempty : frame.body ≠ [])
    (standing : Standing cap maxReadSize main further frame.body.length bytes c)
    (joined : bytes ++ (page ++ coming) = frame.body ++ Framing.stream later) :
    Returns (Connection.handleNewBytes app c page) fun next =>
      Advance cap maxReadSize main further c next (frame :: later) coming := by
  obtain ⟨buffer, filled, same⟩ := standing.handleNewBytes app page
  rw [same]
  rw [← List.append_assoc] at joined
  have positive := List.length_pos_iff.mpr nonempty
  have small : frame.body.length < 2 ^ 32 := Nat.lt_of_le_of_lt allowed.2 maxReadSize.toNat_lt
  have announced : c.bytePacketPipe.nextReadFrameLength ≠ 0 := by
    intro zero
    have none := standing.announced
    rw [zero] at none
    exact Nat.ne_of_lt positive none
  by_cases there : frame.body.length ≤ (bytes ++ page).length
  · obtain ⟨rest, split, left⟩ : ∃ rest, bytes ++ page = frame.body ++ rest ∧
        Framing.stream later = rest ++ coming := by
      rcases List.append_eq_append_iff.mp joined with ⟨more, body, rest⟩ | ⟨rest, split, left⟩
      · rw [body, List.length_append] at there
        have none : more = [] := List.length_eq_zero_iff.mp (by omega)
        subst none
        exact ⟨[], by simpa using body.symm, by simpa using rest.symm⟩
      · exact ⟨rest, split, left⟩
    rw [split] at filled
    have length : UInt32.ofNat frame.body.length = c.bytePacketPipe.nextReadFrameLength :=
      UInt32.toNat_inj.mp ((UInt32.toNat_ofNat_of_lt' small).trans standing.announced.symm)
    have enough : frame.body.length ≤ buffer.readableBytes := by
      rw [filled.readable, List.length_append]
      exact Nat.le_add_right _ _
    have answered := FramedBytePacketPipe.readFrame_there app.readPacket filled standing.announced nonempty enough
    rw [← length] at answered
    refine (standing.serves consumes nonempty small standing.limit buffer filled ?_).mono ?_
    · rw [FramedBytePacketPipe.read, if_neg announced]
      exact answered
    · rintro next ⟨resting, handed⟩
      exact .handed frame later rfl (ended_of_split left) (.between resting.standing left.symm) handed
  · have short : buffer.readableBytes < c.bytePacketPipe.nextReadFrameLength.toNat := by
      rw [filled.readable, standing.announced]
      exact Nat.lt_of_not_le there
    rw [FramedBytePacketPipe.read_waits app.readPacket announced short, ok_bind, dispatch_waits, returns_ok]
    refine .waited (not_ended_of_short joined (Nat.lt_of_not_le there)) (.within ?_ (Nat.lt_of_not_le there) joined) rfl
    exact ⟨standing.pipeline, standing.announced, standing.limit, standing.main, standing.further, filled⟩

private theorem advance_between (consumes : ConsumesFrames app main further)
    (deliverable : Deliverable maxReadSize frames) (standing : Standing cap maxReadSize main further 0 bytes c)
    (joined : bytes ++ (page ++ coming) = Framing.stream frames) (ripe : Ripe c page) :
    Returns (Connection.handleNewBytes app c page) fun next =>
      Advance cap maxReadSize main further c next frames coming := by
  obtain ⟨buffer, filled, same⟩ := standing.handleNewBytes app page
  have fresh : c.bytePacketPipe.nextReadFrameLength = 0 := UInt32.toNat_inj.mp standing.announced
  obtain ⟨whole, fair⟩ := ripe
  rw [standing.held.content] at whole fair
  rw [fresh] at fair
  rw [same]
  rw [← List.append_assoc] at joined
  rcases whole fresh with empty | read
  · rw [empty] at filled joined
    rw [FramedBytePacketPipe.read_nothing app.readPacket fresh filled, ok_bind, dispatch_waits, returns_ok]
    refine .waited (not_ended_of_whole (by simpa using joined)) (.between ?_ joined) rfl
    exact ⟨standing.pipeline, standing.announced, standing.limit, standing.main, standing.further, filled⟩
  · cases frames with
    | nil =>
      have empty := (List.append_eq_nil_iff.mp joined).1
      rw [empty] at read
      exact absurd rfl read
    | cons frame later =>
      obtain ⟨allowed, nonempty⟩ := deliverable frame List.mem_cons_self
      have split : Framing.stream (frame :: later) = frame.header ++ (frame.body ++ Framing.stream later) := by
        simp [Framing.stream, Framing.Frame.bytes]
      rw [split] at joined
      obtain ⟨rest, arrived, left⟩ : ∃ rest, bytes ++ page = frame.header ++ rest ∧
          frame.body ++ Framing.stream later = rest ++ coming := by
        rcases List.append_eq_append_iff.mp joined with ⟨more, header, tail⟩ | ⟨rest, arrived, left⟩
        · by_cases complete : more = []
          · subst complete
            exact ⟨[], by simpa using header.symm, by simpa using tail.symm⟩
          · -- the length would be cut off
            have terminated := frame.terminated
            have within := allowed.1
            rw [header] at terminated within
            rw [List.length_append] at within
            have positive := List.length_pos_iff.mpr complete
            exact absurd (Base128.decode_cut terminated complete (by omega)) read
        · exact ⟨rest, arrived, left⟩
      rw [arrived] at filled fair
      have found : Base128.decode 5 (frame.header ++ rest) = .complete frame.body.length rest := by
        rw [Base128.decode_terminated frame.terminated allowed.1, frame.announces]
      have small : frame.body.length < 2 ^ 32 := Nat.lt_of_le_of_lt allowed.2 maxReadSize.toNat_lt
      have length : (UInt32.ofNat frame.body.length).toNat = frame.body.length := UInt32.toNat_ofNat_of_lt' small
      by_cases counted : frame.body.length ≤ (frame.header ++ rest).length
      · have announces : Announced 0 (· ≤ c.bytePacketPipe.maxReadSize) (frame.header ++ rest)
            (.ofNat frame.body.length) rest := by
          refine ⟨_, found, rfl, ?_⟩
          simp only [decide_eq_true_eq]
          rw [UInt32.le_iff_toNat_le, length, standing.limit]
          exact allowed.2
        have there := announces.enough fair (by rw [length]; exact counted)
        rw [length] at there
        obtain ⟨behind, rfl, tail⟩ : ∃ behind, rest = frame.body ++ behind ∧
            Framing.stream later = behind ++ coming := by
          rcases List.append_eq_append_iff.mp left with ⟨behind, body, tail⟩ | ⟨more, body, tail⟩
          · exact ⟨behind, body, tail⟩
          · rw [body, List.length_append] at there
            have none : more = [] := List.length_eq_zero_iff.mp (by omega)
            subst none
            exact ⟨[], by simpa using body.symm, by simpa using tail.symm⟩
        rw [← List.append_assoc] at filled
        obtain ⟨input, remaining, answered⟩ := FramedBytePacketPipe.read_frame app.readPacket
          (standing.limit ▸ allowed) nonempty fresh filled
        refine (standing.serves consumes nonempty small standing.limit buffer remaining answered).mono ?_
        rintro next ⟨resting, handed⟩
        exact .handed frame later rfl (ended_of_split tail) (.between resting.standing tail.symm) handed
      · have short := Nat.lt_of_not_le counted
        obtain ⟨input, remaining, answered⟩ := FramedBytePacketPipe.read_announces app.readPacket fresh filled found
          (standing.limit ▸ allowed.2) short
        rw [answered, ok_bind, dispatch_waits, returns_ok]
        rw [List.length_append] at short
        have behind := Nat.lt_of_le_of_lt (Nat.le_add_left _ _) short
        refine .waited (not_ended_of_short left.symm behind) (.within ?_ behind left.symm) rfl
        exact ⟨standing.pipeline, length, standing.limit, standing.main, standing.further, remaining⟩

/-- One call on a stream of frames, whatever part of it the page is. -/
theorem Awaits.handleNewBytes (consumes : ConsumesFrames app main further)
    (deliverable : Deliverable maxReadSize frames)
    (awaits : Awaits cap maxReadSize main further c frames (page ++ coming))
    (ripe : Ripe c page) :
    Returns (Connection.handleNewBytes app c page) fun next =>
      Advance cap maxReadSize main further c next frames coming := by
  cases awaits with
  | between standing joined => exact advance_between consumes deliverable standing joined ripe
  | within standing short joined =>
    obtain ⟨allowed, nonempty⟩ := deliverable _ List.mem_cons_self
    exact advance_within consumes allowed nonempty standing joined

/-! ### Runs -/

/-- A call, as a step of a run. -/
def pageStep (app : Application π δ γ) (c : Connection π δ γ) (page : List UInt8) :
    Exec (Connection π δ γ × Unit) := return (← Connection.handleNewBytes app c page, ())

/-- How many frames have been handed over, and how many bytes have been received: a page
brings on the next frame, if it reaches the end of that frame, and no other one. -/
def follow (frames : List Framing.Frame) (state : Nat × Nat) (page : List UInt8) : Nat × Nat :=
  let received := state.2 + page.length
  if state.1 < frames.length ∧ (Framing.stream (frames.take (state.1 + 1))).length ≤ received then
    (state.1 + 1, received)
  else (state.1, received)

/-- The next frame has arrived exactly if the bytes received reach its end. -/
private theorem ended_drop_iff {count received : Nat} (among : received ≤ (Framing.stream frames).length) :
    Ended (frames.drop count) ((Framing.stream frames).drop received) ↔
      count < frames.length ∧ (Framing.stream (frames.take (count + 1))).length ≤ received := by
  have lengths : (Framing.stream (frames.take (count + 1))).length +
      (Framing.stream (frames.drop (count + 1))).length = (Framing.stream frames).length := by
    rw [← List.length_append, Framing.stream, Framing.stream, ← List.flatMap_append, List.take_append_drop,
      Framing.stream]
  rw [Ended, List.tail_drop, List.length_drop, ne_eq, List.drop_eq_nil_iff, Nat.not_le]
  refine and_congr_right fun _ => ?_
  omega

/-- However a stream of frames arrives, as long as the pages are ripe: each call hands over
the next frame if it is there to its end, and otherwise none. -/
theorem frames_handed_as_they_end (consumes : ConsumesFrames app main further) (heap : Nat → Block UInt8)
    (positive : 0 < cap) (maxReadSize : UInt32) (decoder : δ) (user : γ) (frames : List Framing.Frame)
    (deliverable : Deliverable maxReadSize frames) (pages : List (List UInt8)) (rest : List UInt8)
    (partition : pages.flatten ++ rest = Framing.stream frames)
    (ripe : Transition.Meets (pageStep app) Ripe
      (new heap cap [] { maxReadSize := maxReadSize, decoder := decoder } main further user) pages) :
    Returns (Transition.run (pageStep app)
        (new heap cap [] { maxReadSize := maxReadSize, decoder := decoder } main further user) pages) fun out =>
      out.1.handed = (frames.take (pages.foldl (follow frames) (0, 0)).1).map Framing.Frame.body := by
  have run (pages : List (List UInt8)) : ∀ (c : Connection π δ γ) (count received : Nat),
      received ≤ (Framing.stream frames).length → (Framing.stream frames).drop received = pages.flatten ++ rest →
      Awaits cap maxReadSize main further c (frames.drop count) ((Framing.stream frames).drop received) →
      c.handed = (frames.take count).map Framing.Frame.body → Transition.Meets (pageStep app) Ripe c pages →
      Returns (Transition.run (pageStep app) c pages) fun out =>
        out.1.handed = (frames.take (pages.foldl (follow frames) (count, received)).1).map Framing.Frame.body := by
    induction pages with
    | nil =>
      intro c count received _ _ _ handed _
      exact (returns_ok _ _).mpr handed
    | cons page later ih =>
      intro c count received among joined awaits handed ripe
      rw [List.flatten_cons, List.append_assoc] at joined
      have behind : (Framing.stream frames).drop (received + page.length) = later.flatten ++ rest := by
        rw [← List.drop_drop, joined, List.drop_left]
      have reached : received + page.length ≤ (Framing.stream frames).length := by
        have lengths := congrArg List.length joined
        rw [List.length_drop, List.length_append] at lengths
        omega
      rw [joined, ← behind] at awaits
      have awaited : Deliverable maxReadSize (frames.drop count) :=
        fun frame member => deliverable frame (List.mem_of_mem_drop member)
      obtain ⟨next, ran, advance⟩ := awaits.handleNewBytes consumes awaited ripe.1
      have stepped : pageStep app c page = .ok (next, ()) := by rw [pageStep, ran]; rfl
      have ends := @ended_drop_iff frames count _ reached
      rw [List.foldl_cons, follow]
      simp only [Transition.run, stepped, ok_bind]
      cases advance with
      | waited short awaits same =>
        rw [if_neg fun there => short (ends.mpr there)]
        refine (ih next count _ reached behind awaits (same.trans handed) (ripe.2 next () stepped)).bind ?_
        exact fun out done => (returns_ok _ _).mpr done
      | handed frame others first there awaits one =>
        have inside := (ends.mp there).1
        have split := List.drop_eq_getElem_cons inside
        rw [first] at split
        obtain ⟨sameFrame, sameOthers⟩ := List.cons.inj split
        rw [if_pos (ends.mp there)]
        rw [sameOthers] at awaits
        refine (ih next (count + 1) _ reached behind awaits ?_ (ripe.2 next () stepped)).bind ?_
        · rw [one, handed, sameFrame, List.take_succ_eq_append_getElem inside, List.map_append]
          rfl
        · exact fun out done => (returns_ok _ _).mpr done
  refine run pages _ 0 0 (Nat.zero_le _) ?_ ?_ rfl ripe
  · rw [List.drop_zero, partition]
  · exact .between ⟨rfl, rfl, rfl, rfl, rfl, represents_new heap positive⟩ rfl

/-- A frame of three bytes. -/
def threeBytes : Framing.Frame where
  header := [3]
  body := [4, 5, 6]
  terminated := (by decide : (3 : UInt8).toNat < 128)
  announces := rfl

theorem threeBytes_deliverable (count : Nat) : Deliverable 10 (List.replicate count threeBytes) := by
  intro frame member
  obtain ⟨-, rfl⟩ := List.mem_replicate.mp member
  exact ⟨⟨by simp [threeBytes], by simp [threeBytes]⟩, by simp [threeBytes]⟩

/-- A length that arrives on its own does not count for a part of the body. -/
theorem threeBytes_apart : ¬ CountsLength 0 (· ≤ (10 : UInt32)) [3] := by
  rintro ⟨-, length, rest, announced, short, counted⟩
  have found : Announced 0 (· ≤ (10 : UInt32)) [3] 3 [] := ⟨3, rfl, rfl, by decide⟩
  obtain ⟨rfl, rfl⟩ := found.unique announced
  exact absurd counted (by decide)

/-- A length, the rest of its frame with the next frame, and nothing any more. -/
theorem frames_handed_in_three_calls :
    Returns (Transition.run (pageStep skimming)
        (new (fun _ _ => 0) 2 [] { maxReadSize := 10, decoder := () } ⟨0⟩ [] ()) [[3], [4, 5, 6, 3, 4, 5, 6], []])
      fun out => out.1.handed = [[4, 5, 6], [4, 5, 6]] := by
  refine frames_handed_as_they_end (skimming_consumes ⟨0⟩) (fun _ _ => 0) (by decide : 0 < 2) 10 () ()
    (List.replicate 2 threeBytes) (threeBytes_deliverable 2) _ [] rfl ?_
  have length : Base128.decode 5 [3] = .complete 3 [] := rfl
  refine Transition.meets_cons ⟨fun _ => .inr fun cut => ?_, threeBytes_apart⟩ rfl ?_
  · cases length.symm.trans cut
  · refine Transition.meets_cons ⟨fun fresh => absurd fresh (by decide), ?_⟩ rfl ?_
    · rintro ⟨fresh, -⟩
      exact absurd fresh (by decide)
    · have whole : Base128.decode 5 [3, 4, 5, 6] = .complete 3 [4, 5, 6] := rfl
      refine Transition.meets_cons ⟨fun _ => .inr fun cut => ?_, ?_⟩ rfl trivial
      · cases whole.symm.trans cut
      · rintro ⟨-, length, rest, announced, short, counted⟩
        have found : Announced 0 (· ≤ (10 : UInt32)) [3, 4, 5, 6] 3 [4, 5, 6] := ⟨3, rfl, rfl, by decide⟩
        obtain ⟨rfl, rfl⟩ := found.unique announced
        exact absurd short (by decide)

end Connection

end ShipNet
