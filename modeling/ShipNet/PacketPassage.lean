import ShipNet.IncomingAgreement
import ShipNet.PacketWrites

/-! Two connections with the same pipeline, of which one writes packets and the other
is given the bytes: what the pipes do from the end of the pipeline to its front, they
undo from the front to the end. -/
namespace ShipNet
open Fallible ByteBufferImpl PipedConnection

variable {π ρ ψ γ : Type}

/-! ### Encodings in a row -/

abbrev Encoding : Type := List UInt8 → List UInt8

/-- At least one byte, and fewer than `MAX_PACKET_SIZE`. -/
structure Small (bytes : List UInt8) : Prop where
  nonempty : bytes ≠ []
  few : bytes.length < maxPacketSize

/-- What comes out at the front of a pipeline when `bytes` go in at its end. -/
def encoded : List Encoding → List UInt8 → List UInt8
  | [], bytes => bytes
  | code :: later, bytes => code (encoded later bytes)

/-- The bytes are small in front of every pipe and behind the last one. -/
def Fitting : List Encoding → List UInt8 → Prop
  | [], bytes => Small bytes
  | code :: later, bytes => Small (code (encoded later bytes)) ∧ Fitting later bytes

variable {codes : List Encoding} {code : Encoding} {bytes : List UInt8}

theorem encoded_concat (codes : List Encoding) (code : Encoding) (bytes : List UInt8) :
    encoded (codes ++ [code]) bytes = encoded codes (code bytes) := by
  induction codes with
  | nil => rfl
  | cons first later ih => simp only [List.cons_append, encoded, ih]

theorem fitting_concat : Fitting (codes ++ [code]) bytes ↔ Fitting codes (code bytes) ∧ Small bytes := by
  induction codes with
  | nil => rfl
  | cons first later ih => simp only [List.cons_append, Fitting, encoded_concat, ih, and_assoc]

theorem Fitting.encoded (fits : Fitting codes bytes) : Small (encoded codes bytes) := by
  cases codes with
  | nil => exact fits
  | cons code later => exact fits.1

theorem Fitting.plain (fits : Fitting codes bytes) : Small bytes := by
  induction codes with
  | nil => exact fits
  | cons code later ih => exact ih fits.2

/-! ### What the pipes are -/

/-- What the two ends of an exchange agree on: which encoding a byte pipe has in a state,
what a packet pipe makes of packets in a state, and which packet a holder announces when
these bytes are behind it; then the encodings of the pipeline in its order, what the
packet pipes write, and the receiver's handlers. -/
structure Link (π ρ ψ : Type) where
  encodes : π → Encoding → Prop
  forms : ρ → (ψ → List UInt8) → Prop
  packetOf : PacketHolder → List UInt8 → Option ψ
  codes : List Encoding
  form : ψ → List UInt8
  mainPacketHandler : PacketHandler
  packetHandlers : List PacketHandler

/-- `Read` of every pipe undoes its `Write`, and both keep the encoding. -/
structure Protocol.ReadsBack (protocol : Protocol π ρ ψ γ) (link : Link π ρ ψ) : Prop where
  writePipe : ∀ pipe input code bytes old, link.encodes pipe.state code → Holds bytes input →
    Holds old pipe.writerBuffer → Small bytes → Small (code bytes) →
    Returns (protocol.writePipe pipe input) fun out =>
      out.1.isSuccess = true ∧ out.1.value ≠ 0 ∧ Reads input out.2.2 ∧ out.2.2.content = [] ∧
        Holds (old ++ code bytes) out.2.1.writerBuffer ∧ link.encodes out.2.1.state code
  readPipe : ∀ pipe input code bytes old, link.encodes pipe.state code → Holds (code bytes) input →
    Holds old pipe.readerBuffer → Small bytes → Small (code bytes) →
    Returns (protocol.readPipe pipe input) fun out =>
      Holds [] out.2.2 ∧ Holds (old ++ bytes) out.2.1.readerBuffer ∧ link.encodes out.2.1.state code
  writePacket : ∀ pipe buffer form packet, link.forms pipe form → Represents maxPacketSize [] buffer →
    Small (form packet) →
    Returns (protocol.writePacket pipe buffer packet) fun out =>
      out.1.isSuccess = true ∧ out.1.value = true ∧ Writes (form packet) buffer out.2.2 ∧ link.forms out.2.1 form
  readPacket : ∀ pipe buffer form packet, link.forms pipe form → Holds (form packet) buffer →
    Small (form packet) →
    Returns (protocol.readPacket pipe buffer) fun out =>
      out.1.isSuccess = true ∧ link.forms out.2.1 form ∧
        ∃ body, Holds body out.2.2 ∧ link.packetOf out.1.value body = some packet

/-- The main handler takes all that is behind the holder of a packet it is given, and
the other handlers put nothing there. -/
structure Protocol.TakesPackets (protocol : Protocol π ρ ψ γ) (link : Link π ρ ψ) : Prop where
  mainPacketHandler : ∀ user holder buffer packet body, Holds body buffer → link.packetOf holder body = some packet →
    Returns (link.mainPacketHandler.handle protocol.callbacks user holder buffer) fun out => Holds [] out.2.2.1
  packetHandlers : ∀ item ∈ link.packetHandlers, ∀ user holder buffer, Holds [] buffer →
    Returns (item.handle protocol.callbacks user holder buffer) fun out => Holds [] out.2.2.1

/-! ### Buffers in a row -/

/-- A pipe in a state with this encoding, and its buffer on this side empty. -/
structure Idle (encodes : π → Encoding → Prop) (side : DuplexPipe π → ByteBufferImpl) (pipe : DuplexPipe π)
    (code : Encoding) : Prop where
  encodes : encodes pipe.state code
  empty : Holds [] (side pipe)

/-- A buffer and those of the pipes behind it: the last one of all holds `bytes`, the
others are empty. -/
inductive Chain (encodes : π → Encoding → Prop) (side : DuplexPipe π → ByteBufferImpl) (bytes : List UInt8) :
    ByteBufferImpl → List (DuplexPipe π) → List Encoding → Prop where
  | last {buffer : ByteBufferImpl} (loaded : Holds bytes buffer) : Chain encodes side bytes buffer [] []
  | stage {buffer : ByteBufferImpl} {pipe : DuplexPipe π} {later : List (DuplexPipe π)} {code : Encoding}
      {codes : List Encoding} (empty : Holds [] buffer) (coded : encodes pipe.state code)
      (behind : Chain encodes side bytes (side pipe) later codes) :
      Chain encodes side bytes buffer (pipe :: later) (code :: codes)

variable {encodes : π → Encoding → Prop} {side : DuplexPipe π → ByteBufferImpl} {buffer : ByteBufferImpl}
  {pipes : List (DuplexPipe π)} {pipe : DuplexPipe π}

/-- With nothing at its end, all of the row is empty. -/
theorem chain_empty_iff :
    Chain encodes side [] buffer pipes codes ↔ Holds [] buffer ∧ List.Forall₂ (Idle encodes side) pipes codes := by
  constructor
  · intro chain
    induction chain with
    | last loaded => exact ⟨loaded, .nil⟩
    | stage empty coded behind ih => exact ⟨empty, .cons ⟨coded, ih.1⟩ ih.2⟩
  · rintro ⟨empty, idle⟩
    induction idle generalizing buffer with
    | nil => exact .last empty
    | cons first later ih => exact .stage empty first.encodes (ih first.empty)

/-- The end of the row is the buffer of the last pipe, and can be replaced. -/
theorem Chain.at_end (chain : Chain encodes side bytes buffer (pipes ++ [pipe]) codes) :
    Holds bytes (side pipe) ∧ ∀ other after, other.state = pipe.state → Holds after (side other) →
      Chain encodes side after buffer (pipes ++ [other]) codes := by
  induction pipes generalizing buffer codes with
  | nil =>
    cases chain with
    | stage empty coded behind =>
      cases behind with
      | last loaded => exact ⟨loaded, fun other after same held => .stage empty (same ▸ coded) (.last held)⟩
  | cons first later ih =>
    cases chain with
    | stage empty coded behind =>
      obtain ⟨loaded, replaced⟩ := ih behind
      exact ⟨loaded, fun other after same held => .stage empty coded (replaced other after same held)⟩

/-! ### From the end of the pipeline to its front -/

variable {protocol : Protocol π ρ ψ γ} {link : Link π ρ ψ}

/-- Every pipe of the reversed pipeline encodes what the one before it left. -/
private theorem writeStages_encodes (contract : protocol.ReadsBack link)
    (loaded : Holds bytes buffer) (idle : List.Forall₂ (Idle link.encodes (·.writerBuffer)) pipes codes)
    (fits : Fitting codes.reverse bytes) :
    Returns (writeStages protocol buffer pipes) fun stages =>
      stages.outcome = .passed ∧ Reads buffer stages.input ∧
        Chain link.encodes (·.writerBuffer) (encoded codes.reverse bytes) stages.input stages.pipes codes := by
  induction idle generalizing buffer bytes with
  | nil => exact (returns_ok _ _).mpr ⟨rfl, .refl buffer, .last loaded⟩
  | @cons pipe code earlier codes first others ih =>
    rw [List.reverse_cons, fitting_concat] at fits
    obtain ⟨further, small⟩ := fits
    refine (contract.writePipe pipe buffer code bytes [] first.encodes loaded first.empty small further.plain).bind ?_
    rintro ⟨result, after, rest⟩ ⟨success, something, read, emptied, appended, coded⟩
    simp only at success something read emptied appended coded
    simp only [success, Bool.not_true, Bool.false_eq_true, if_false, if_neg something]
    refine (ih appended further).bind ?_
    rintro stages ⟨passed, readNext, chain⟩
    refine (returns_ok _ _).mpr ⟨passed, read, ?_⟩
    rw [List.reverse_cons, encoded_concat]
    exact .stage ⟨read.uses.wellFormed loaded.wellFormed, emptied⟩ coded chain

/-- The front buffer is the end of the row that `Write` goes along. -/
private theorem frontBuffer_holds {prepared : Prepared π ρ}
    (chain : Chain encodes (·.writerBuffer) bytes prepared.connectionWriteBuffer prepared.pipeline.reverse codes) :
    Holds bytes prepared.frontBuffer ∧ ∀ buffer after, Holds after buffer →
      Chain encodes (·.writerBuffer) after (prepared.setFrontBuffer buffer).connectionWriteBuffer
        (prepared.setFrontBuffer buffer).pipeline.reverse codes := by
  cases shape : prepared.pipeline with
  | nil =>
    rw [shape] at chain
    simp only [Prepared.frontBuffer, Prepared.setFrontBuffer, shape, List.reverse_nil]
    cases chain with
    | last loaded => exact ⟨loaded, fun buffer after held => .last held⟩
  | cons pipe later =>
    rw [shape, List.reverse_cons] at chain
    obtain ⟨loaded, replaced⟩ := chain.at_end
    simp only [Prepared.frontBuffer, Prepared.setFrontBuffer, shape, List.reverse_cons]
    exact ⟨loaded, fun buffer after held => replaced _ after rfl held⟩

/-- A connection that has passed on all that it was to write. -/
structure Written (link : Link π ρ ψ) (c : PipedConnection π ρ γ) (connectionWriteBuffer : ByteBufferImpl) :
    Prop where
  resettable : connectionWriteBuffer.Resettable
  connectionWriteBuffer : connectionWriteBuffer.content = []
  pipeline : List.Forall₂ (Idle link.encodes (·.writerBuffer)) c.pipeline link.codes
  bytePacketPipe : link.forms c.bytePacketPipe link.form
  writerBuffer : c.writerBuffer.WellFormed

variable {c : PipedConnection π ρ γ} {connectionWriteBuffer : ByteBufferImpl} {packet : ψ}

private theorem prepare_encodes (contract : protocol.ReadsBack link)
    (written : Written link c connectionWriteBuffer) (fits : Fitting link.codes (link.form packet)) :
    Returns (prepare protocol c connectionWriteBuffer packet) fun prepared =>
      prepared.outcome = .passed ∧ link.forms prepared.bytePacketPipe link.form ∧
        prepared.connectionWriteBuffer.OneSegment ∧ prepared.connectionWriteBuffer.singleCapacity = maxPacketSize ∧
        Chain link.encodes (·.writerBuffer) (encoded link.codes (link.form packet)) prepared.connectionWriteBuffer
          prepared.pipeline.reverse link.codes.reverse := by
  obtain ⟨⟨shouldWrite, bytePacketPipe, buffer⟩, wrote, success, wanted, writes, formed⟩ :=
    contract.writePacket _ _ link.form packet written.bytePacketPipe written.resettable.reset fits.plain
  simp only at success wanted writes formed
  obtain ⟨represents, oneSegment⟩ := writes.after_reset written.resettable fits.plain.few
  have idle := List.forall₂_reverse_iff.mpr written.pipeline
  rw [← List.reverse_reverse link.codes] at fits
  obtain ⟨stages, traversed, passed, read, chain⟩ := writeStages_encodes contract represents.holds idle fits
  obtain ⟨kept, sameCapacity⟩ := read.oneSegment oneSegment
  unfold prepare
  simp only [wrote, ok_bind, success, Bool.not_true, Bool.false_eq_true, if_false, wanted, if_true, traversed,
    pure_is_ok, returns_ok]
  refine ⟨passed, formed, kept, sameCapacity.trans represents.capacity, ?_⟩
  simpa only [List.reverse_reverse] using chain

/-- `Write` appends what the row of encodings makes of the packet, and leaves nothing behind. -/
private theorem write_encodes (contract : protocol.ReadsBack link)
    (written : Written link c connectionWriteBuffer) (fits : Fitting link.codes (link.form packet))
    (scratch : Block UInt8) :
    Returns (write protocol c connectionWriteBuffer packet scratch) fun out =>
      Written link out.1 out.2 ∧
        out.1.writerBuffer.content = c.writerBuffer.content ++ encoded link.codes (link.form packet) := by
  obtain ⟨prepared, same, passed, formed, oneSegment, capacity, chain⟩ := prepare_encodes contract written fits
  obtain ⟨loaded, replaced⟩ := frontBuffer_holds chain
  have small := fits.encoded
  have readable : prepared.frontBuffer.readableBytes = (encoded link.codes (link.form packet)).length :=
    loaded.represents.readable
  have positive : 0 < prepared.frontBuffer.readableBytes := by
    rw [readable]
    exact List.length_pos_iff.mpr small.nonempty
  have bounded : prepared.frontBuffer.readableBytes ≤ maxPacketSize := by
    rw [readable]
    exact Nat.le_of_lt small.few
  unfold write
  simp only [same, ok_bind, passed]
  refine (writeBytesFrom_transfers written.writerBuffer.represents scratch loaded.represents positive bounded
    (Nat.le_of_eq readable)).bind ?_
  rintro ⟨writerBuffer, filled, buffer⟩ ⟨appended, remaining, read⟩
  rw [List.take_of_length_le (Nat.le_of_eq readable.symm)] at appended
  rw [List.drop_of_length_le (Nat.le_of_eq readable.symm)] at remaining
  obtain ⟨emptied, idle⟩ := chain_empty_iff.mp (replaced buffer [] remaining.holds)
  refine (returns_ok _ _).mpr ⟨⟨?_, emptied.content, List.forall₂_reverse_iff.mp idle, formed, appended.wellFormed⟩,
    appended.content⟩
  exact Prepared.setFrontBuffer_resettable oneSegment capacity read

/-! ### From the front of the pipeline to its end -/

/-- A call of `Handle`, with what was in the packet buffer. -/
structure Given where
  receiver : Receiver
  packet : PacketHolder
  content : List UInt8

/-- A connection that receives, beside the calls of `Handle` that it has made. -/
abbrev Noted (π ρ γ : Type) : Type := PipedConnection π ρ γ × List Given

/-- `HandleNewBytes`, with every call of `Handle` noted. -/
def noting (protocol : Protocol π ρ ψ γ) : Incoming (Noted π ρ γ) (DuplexPipe π) γ Unit :=
  (incoming protocol).recording fun c receiver packet _ => ⟨receiver, packet, c.packetBuffer.content⟩

/-- The notes are beside the code: without them, this is `HandleNewBytes`. -/
theorem noting_erased (protocol : Protocol π ρ ψ γ) (noted : Noted π ρ γ) (page : List UInt8) :
    ((noting protocol).handleNewBytes noted page).map Prod.fst = handleNewBytes protocol noted.1 page :=
  Incoming.recording_erased _ _ _ _

/-- Every pipe decodes what the one before it left. -/
private theorem readPipeline_decodes (contract : protocol.ReadsBack link)
    (loaded : Holds (encoded codes bytes) buffer)
    (idle : List.Forall₂ (Idle link.encodes (·.readerBuffer)) pipes codes) (fits : Fitting codes bytes) :
    Returns ((noting protocol).readPipeline buffer pipes) fun out =>
      Chain link.encodes (·.readerBuffer) bytes out.1 out.2 codes := by
  induction idle generalizing buffer with
  | nil => exact (returns_ok _ _).mpr (.last loaded)
  | @cons pipe code later codes first others ih =>
    obtain ⟨small, further⟩ := fits
    refine (contract.readPipe pipe buffer code _ [] first.encodes loaded first.empty further.encoded small).bind ?_
    rintro ⟨result, after, rest⟩ ⟨emptied, appended, coded⟩
    refine (ih appended further).bind ?_
    rintro ⟨readerBuffer, behind⟩ chain
    exact (returns_ok _ _).mpr (.stage emptied coded chain)

/-- The packet pipe and the handlers work on the end of the row. -/
private theorem packetBuffer_holds
    (chain : Chain encodes (·.readerBuffer) bytes c.readerBuffer c.pipeline codes) :
    Holds bytes c.packetBuffer ∧ ∀ buffer after, Holds after buffer →
      ∃ readerBuffer pipeline,
        c.setPacketBuffer buffer = { c with readerBuffer := readerBuffer, pipeline := pipeline } ∧
          Chain encodes (·.readerBuffer) after readerBuffer pipeline codes := by
  unfold packetBuffer setPacketBuffer PipedBuffers.packetBuffer PipedBuffers.setPacketBuffer
  simp only [PipedConnection.buffers]
  rcases List.eq_nil_or_concat' c.pipeline with shape | ⟨pipes, pipe, shape⟩
  · rw [shape] at chain
    simp only [shape, List.getLast?_nil]
    cases chain with
    | last loaded => exact ⟨loaded, fun buffer after held => ⟨buffer, [], by rw [← shape], .last held⟩⟩
  · rw [shape] at chain
    obtain ⟨loaded, replaced⟩ := chain.at_end
    simp only [shape, List.getLast?_concat, List.dropLast_concat]
    exact ⟨loaded, fun buffer after held => ⟨c.readerBuffer, _, rfl, replaced _ after rfl held⟩⟩

/-! ### The handlers -/

/-- What the main handler was given: the packets that the holders announced. -/
def mainGiven (link : Link π ρ ψ) (given : List Given) : List (Option ψ) :=
  (given.filter (·.receiver = .mainPacketHandler)).map fun given => link.packetOf given.packet given.content

/-- A connection that has used up all that it was given. -/
structure Received (link : Link π ρ ψ) (c : PipedConnection π ρ γ) : Prop where
  readerBuffer : Holds [] c.readerBuffer
  pipeline : List.Forall₂ (Idle link.encodes (·.readerBuffer)) c.pipeline link.codes
  bytePacketPipe : link.forms c.bytePacketPipe link.form
  mainPacketHandler : c.mainPacketHandler = link.mainPacketHandler
  packetHandlers : c.packetHandlers = link.packetHandlers

/-- The same with `bytes` at the end of the row. -/
private structure Receiving (link : Link π ρ ψ) (bytes : List UInt8) (c : PipedConnection π ρ γ) : Prop where
  chain : Chain link.encodes (·.readerBuffer) bytes c.readerBuffer c.pipeline link.codes
  bytePacketPipe : link.forms c.bytePacketPipe link.form
  mainPacketHandler : c.mainPacketHandler = link.mainPacketHandler
  packetHandlers : c.packetHandlers = link.packetHandlers

private theorem Receiving.received (state : Receiving link [] c) :
    Received link c :=
  ⟨(chain_empty_iff.mp state.chain).1, (chain_empty_iff.mp state.chain).2, state.bytePacketPipe,
    state.mainPacketHandler, state.packetHandlers⟩

private theorem Receiving.close (state : Receiving link bytes c) :
    Receiving link bytes c.close :=
  ⟨state.chain, state.bytePacketPipe, state.mainPacketHandler, state.packetHandlers⟩

variable {noted : Noted π ρ γ}

/-- A handler is given what is at the end of the row, and leaves there what it leaves. -/
private theorem offer_returns (state : Receiving link bytes noted.1) (receiver : Receiver)
    (handler : PacketHandler) (holder : PacketHolder) {after : List UInt8}
    (takes : ∀ buffer, Holds bytes buffer →
      Returns (handler.handle protocol.callbacks noted.1.user holder buffer) fun out => Holds after out.2.2.1) :
    Returns ((noting protocol).offer noted receiver handler holder ()) fun out =>
      Receiving link after out.2.1 ∧ out.2.2 = noted.2 ++ [⟨receiver, holder, bytes⟩] := by
  obtain ⟨loaded, replaced⟩ := packetBuffer_holds state.chain
  refine (takes noted.1.packetBuffer loaded).bind ?_
  rintro ⟨wasHandled, user, buffer, invocations⟩ left
  obtain ⟨readerBuffer, pipeline, same, chain⟩ := replaced buffer after left
  simp only [noting, Incoming.recording, incoming, same, loaded.content, pure_is_ok, returns_ok, and_true]
  exact ⟨chain, state.bytePacketPipe, state.mainPacketHandler, state.packetHandlers⟩

private theorem offerFurther_returns (takes : protocol.TakesPackets link) (holder : PacketHolder)
    {items : List PacketHandler} (known : ∀ item ∈ items, item ∈ link.packetHandlers)
    (state : Receiving link [] noted.1) :
    Returns ((noting protocol).offerFurther holder () items noted) fun after =>
      Receiving link [] after.1 ∧ mainGiven link after.2 = mainGiven link noted.2 := by
  induction items generalizing noted with
  | nil => exact (returns_ok _ _).mpr ⟨state, rfl⟩
  | cons item later ih =>
    obtain ⟨first, others⟩ := List.forall_mem_cons.mp known
    refine (offer_returns state .packetHandlers item holder
      (takes.packetHandlers item first noted.1.user holder)).bind ?_
    rintro ⟨wasHandled, next⟩ ⟨kept, given⟩
    simp only at kept given
    have same : mainGiven link next.2 = mainGiven link noted.2 := by simp [mainGiven, given]
    have settled : ∀ closing : Bool, Receiving link [] (if closing then (noting protocol).close next else next).1 ∧
        mainGiven link (if closing then (noting protocol).close next else next).2 = mainGiven link noted.2 := by
      intro closing
      cases closing with
      | false => exact ⟨kept, same⟩
      | true => exact ⟨kept.close, same⟩
    obtain ⟨keptNow, sameNow⟩ := settled (!wasHandled.isSuccess)
    simp only
    split
    · exact (returns_ok _ _).mpr ⟨keptNow, sameNow⟩
    · refine (ih others keptNow).mono ?_
      rintro after ⟨keptLater, sameLater⟩
      exact ⟨keptLater, sameLater.trans sameNow⟩

private theorem dispatch_returns (takes : protocol.TakesPackets link)
    {holder : Errorable PacketHolder} (success : holder.isSuccess = true)
    (state : Receiving link bytes noted.1) (known : link.packetOf holder.value bytes = some packet) :
    Returns ((noting protocol).dispatch noted holder ()) fun after =>
      Received link after.1 ∧ mainGiven link after.2 = mainGiven link noted.2 ++ [some packet] := by
  unfold Incoming.dispatch
  have main : (noting protocol).mainPacketHandler noted = link.mainPacketHandler := state.mainPacketHandler
  simp only [success, if_true, main]
  refine (offer_returns state .mainPacketHandler link.mainPacketHandler holder.value fun buffer loaded =>
    takes.mainPacketHandler noted.1.user holder.value buffer packet bytes loaded known).bind ?_
  rintro ⟨wasHandled, next⟩ ⟨kept, given⟩
  simp only at kept given
  have grown : mainGiven link next.2 = mainGiven link noted.2 ++ [some packet] := by simp [mainGiven, given, known]
  cases handled : wasHandled.isSuccess with
  | false =>
    simp only [Bool.not_false, if_true, pure_is_ok, returns_ok]
    exact ⟨kept.close.received, grown⟩
  | true =>
    simp only [Bool.not_true, Bool.false_eq_true, if_false]
    split
    · have further : (noting protocol).packetHandlers next = link.packetHandlers := kept.packetHandlers
      rw [further]
      refine (offerFurther_returns takes holder.value (fun item member => member) kept).mono ?_
      rintro after ⟨keptLater, sameLater⟩
      exact ⟨keptLater.received, sameLater.trans grown⟩
    · exact (returns_ok _ _).mpr ⟨kept.received, grown⟩

private theorem receive_decodes (contract : protocol.ReadsBack link) (received : Received link noted.1)
    (fits : Fitting link.codes bytes) :
    Returns ((noting protocol).receive noted (encoded link.codes bytes)) fun out =>
      Receiving link bytes out.1 ∧ out.2 = noted.2 := by
  obtain ⟨written, wrote, loaded⟩ :=
    writeBytes_represents received.readerBuffer.represents (encoded link.codes bytes)
  rw [List.nil_append] at loaded
  obtain ⟨⟨readerBuffer, pipeline⟩, piped, chain⟩ :=
    readPipeline_decodes contract loaded.holds received.pipeline fits
  refine ⟨({ noted.1 with readerBuffer := readerBuffer, pipeline := pipeline }, noted.2), ?_, ?_, rfl⟩
  · show (noted.1.readerBuffer.writeBytes _ >>= fun readerBuffer =>
      (noting protocol).readPipeline readerBuffer noted.1.pipeline >>= _) = _
    rw [wrote, ok_bind, piped]
    rfl
  · exact ⟨chain, received.bytePacketPipe, received.mainPacketHandler, received.packetHandlers⟩

private theorem readPacket_decodes (contract : protocol.ReadsBack link)
    (state : Receiving link (link.form packet) noted.1) (small : Small (link.form packet)) :
    Returns ((noting protocol).readPacket noted) fun out =>
      out.1.isSuccess = true ∧ out.2.2.2 = noted.2 ∧
        ∃ body, Receiving link body out.2.2.1 ∧ link.packetOf out.1.value body = some packet := by
  obtain ⟨announced, replaced⟩ := packetBuffer_holds state.chain
  obtain ⟨⟨holder, bytePacketPipe, buffer⟩, read, success, formed, body, left, known⟩ :=
    contract.readPacket _ _ link.form packet state.bytePacketPipe announced small
  obtain ⟨readerBuffer, pipeline, same, chain⟩ := replaced buffer body left
  refine ⟨(holder, (), { noted.1.setPacketBuffer buffer with bytePacketPipe := bytePacketPipe }, noted.2),
    ?_, success, rfl, body, ?_, known⟩
  · show (protocol.readPacket noted.1.bytePacketPipe noted.1.packetBuffer >>= _) >>= _ = _
    rw [read]
    rfl
  · simp only [same]
    exact ⟨chain, formed, state.mainPacketHandler, state.packetHandlers⟩

/-- A page that the row of encodings made of a packet brings that packet to the main handler. -/
private theorem handleNewBytes_decodes (contract : protocol.ReadsBack link)
    (takes : protocol.TakesPackets link) (received : Received link noted.1)
    (fits : Fitting link.codes (link.form packet)) :
    Returns ((noting protocol).handleNewBytes noted (encoded link.codes (link.form packet))) fun after =>
      Received link after.1 ∧ mainGiven link after.2 = mainGiven link noted.2 ++ [some packet] := by
  refine (receive_decodes contract received fits).bind ?_
  rintro reached ⟨state, unnoted⟩
  refine (readPacket_decodes contract state fits.plain).bind ?_
  rintro ⟨holder, shown, next⟩ ⟨success, still, body, behind, known⟩
  simp only at success still behind known
  rw [← unnoted, ← still]
  exact dispatch_returns takes success behind known

/-! ### Packets from one connection to the other -/

/-- A sending connection with the `connectionWriteBuffer` of its thread, and a receiving
connection with what its handlers have been given. -/
structure Exchange (π ρ γ : Type) where
  sender : PipedConnection π ρ γ
  connectionWriteBuffer : ByteBufferImpl
  receiver : PipedConnection π ρ γ
  given : List Given

/-- A packet to be sent, with what the thread's `byteBufferWriteBuffer` holds then. -/
structure Sending (ψ : Type) where
  packet : ψ
  scratch : Block UInt8

namespace Exchange

/-- A `Write`, and a `HandleNewBytes` with the bytes that it appended. -/
def step (protocol : Protocol π ρ ψ γ) (e : Exchange π ρ γ) (sending : Sending ψ) :
    Exec (Exchange π ρ γ × List UInt8) := do
  let (sender, connectionWriteBuffer) ←
    write protocol e.sender e.connectionWriteBuffer sending.packet sending.scratch
  let page := sender.writerBuffer.content.drop e.sender.writerBuffer.content.length
  let (receiver, given) ← (noting protocol).handleNewBytes (e.receiver, e.given) page
  pure ({
    sender := sender
    connectionWriteBuffer := connectionWriteBuffer
    receiver := receiver
    given := given }, page)

/-- The buffers that packets go through on their way are empty. -/
structure BuffersEmpty (e : Exchange π ρ γ) : Prop where
  connectionWriteBuffer : e.connectionWriteBuffer.content = []
  sending : ∀ pipe ∈ e.sender.pipeline, pipe.writerBuffer.content = []
  readerBuffer : e.receiver.readerBuffer.content = []
  receiving : ∀ pipe ∈ e.receiver.pipeline, pipe.readerBuffer.content = []

/-- Both connections hold pipes with these encodings in this order, and nothing is on its way. -/
structure Ready (link : Link π ρ ψ) (e : Exchange π ρ γ) : Prop where
  sender : Written link e.sender e.connectionWriteBuffer
  receiver : Received link e.receiver

private theorem idle_empty {side : DuplexPipe π → ByteBufferImpl}
    (idle : List.Forall₂ (Idle encodes side) pipes codes) : ∀ pipe ∈ pipes, (side pipe).content = [] := by
  induction idle with
  | nil => simp
  | cons first later ih => exact List.forall_mem_cons.mpr ⟨first.empty.content, ih⟩

theorem Ready.buffersEmpty {e : Exchange π ρ γ} (ready : Ready link e) :
    e.BuffersEmpty where
  connectionWriteBuffer := ready.sender.connectionWriteBuffer
  sending := idle_empty ready.sender.pipeline
  readerBuffer := ready.receiver.readerBuffer.content
  receiving := idle_empty ready.receiver.pipeline

private theorem step_delivers (contract : protocol.ReadsBack link)
    (takes : protocol.TakesPackets link) {e : Exchange π ρ γ}
    (ready : Ready link e) {sending : Sending ψ}
    (fits : Fitting link.codes (link.form sending.packet)) :
    Returns (step protocol e sending) fun out => Ready link out.1 ∧
      mainGiven link out.1.given = mainGiven link e.given ++ [some sending.packet] := by
  refine (write_encodes contract ready.sender fits sending.scratch).bind ?_
  rintro ⟨sender, connectionWriteBuffer⟩ ⟨written, appended⟩
  simp only at written appended
  simp only [appended, List.drop_left]
  have received : Received link (e.receiver, e.given).1 := ready.receiver
  refine (handleNewBytes_decodes contract takes received fits).bind ?_
  rintro ⟨receiver, given⟩ ⟨received, grown⟩
  exact (returns_ok _ _).mpr ⟨⟨written, received⟩, grown⟩

/-- Whatever packets are sent, the main handler of the receiver is given these packets,
in order, and no buffer on their way keeps anything. Every moment of a run is the end
of a shorter one. -/
theorem packets_pass_unchanged (contract : protocol.ReadsBack link)
    (takes : protocol.TakesPackets link) (start : Exchange π ρ γ)
    (ready : Ready link start) (fresh : start.given = [])
    (sendings : List (Sending ψ)) (fits : ∀ sending ∈ sendings, Fitting link.codes (link.form sending.packet)) :
    ∃ final pages, Transition.run (step protocol) start sendings = .ok (final, pages) ∧
      mainGiven link final.given = sendings.map (fun sending => some sending.packet) ∧
      final.BuffersEmpty := by
  obtain ⟨⟨final, pages⟩, ran, kept, given⟩ := Transition.run_follows
    (fun packets (sending : Sending ψ) => packets ++ [some sending.packet])
    (fun e packets => Ready link e ∧ mainGiven link e.given = packets) []
    (fun e packets sending kept (fits : Fitting link.codes (link.form sending.packet)) =>
      (step_delivers contract takes kept.1 fits).mono fun out next => ⟨next.1, kept.2 ▸ next.2⟩)
    ⟨ready, by simp [mainGiven, fresh]⟩ (Transition.meets_of_forall fun sending member _ => fits sending member)
  refine ⟨final, pages, ran, ?_, kept.buffersEmpty⟩
  rw [given, List.foldl_append_eq_append, List.nil_append, ← List.flatMap_def, ← List.map_eq_flatMap]

/-! ### Two pipes that put a byte in front -/

/-- All that is readable, out of the buffer. -/
private def readAll (buffer : ByteBufferImpl) : Exec (List UInt8 × ByteBufferImpl) := do
  let (result, _, buffer) ← buffer.readBytes ⟨fun _ => 0, buffer.readableBytes⟩ buffer.readableBytes
  pure (result.value, buffer)

private theorem readAll_returns (loaded : Holds bytes buffer) (small : Small bytes) :
    Returns (readAll buffer) fun out => out.1 = bytes ∧ Holds [] out.2 ∧ Reads buffer out.2 := by
  have readable : buffer.readableBytes = bytes.length := loaded.represents.readable
  have positive : 0 < bytes.length := List.length_pos_iff.mpr small.nonempty
  have few := small.few
  have narrow := buffer.lastPieceOffset_lt bytes.length (by simp only [maxPacketSize] at few; omega)
  obtain ⟨⟨result, filled, after⟩, read, answered, -, -, -, left⟩ := readBytes_represents loaded.represents
    ⟨fun _ => 0, bytes.length⟩ positive (Nat.le_refl _) (Nat.le_refl _) narrow
  simp only at answered left
  rw [List.take_length] at answered
  rw [List.drop_length] at left
  simp only [readAll, readable, read, ok_bind, pure_is_ok, returns_ok, answered, success_value, true_and]
  refine ⟨left.holds, [.readBytes ⟨fun _ => 0, bytes.length⟩ bytes.length], [reply id result], ?_, ?_⟩
  · intro operation member
    cases List.mem_singleton.mp member
    exact ⟨Nat.le_refl _, trivial⟩
  · simp only [Transition.run, ByteBufferImpl.step, read, ok_bind, pure_is_ok]

/-- A handler that takes the byte of its packet. -/
private def takeByte : Callback Unit := fun _ user _ buffer => do
  let (_, buffer) ← buffer.readByte
  pure (successErrorable true, user, buffer)

/-- A byte pipe puts its state in front of the bytes, a packet is an ordinal and a byte. -/
private def labelling : Protocol UInt8 Unit UInt8 Unit where
  readPipe pipe input := do
    let (_, input) ← input.readByte
    let (bytes, input) ← readAll input
    let readerBuffer ← pipe.readerBuffer.writeBytes bytes
    pure (successErrorable 1, { pipe with readerBuffer := readerBuffer }, input)
  writePipe pipe input := do
    let (bytes, input) ← readAll input
    let writerBuffer ← pipe.writerBuffer.writeBytes (pipe.state :: bytes)
    pure (successErrorable 1, { pipe with writerBuffer := writerBuffer }, input)
  readPacket pipe input := do
    let (ordinal, input) ← input.readByte
    pure (successErrorable ⟨ordinal.value.toUInt32, 0, 1⟩, pipe, input)
  writePacket pipe buffer packet := do
    let buffer ← buffer.writeBytes [0, packet]
    pure (successErrorable true, pipe, buffer)
  callbacks := [[some takeByte]]

private def labels : Link UInt8 Unit UInt8 where
  encodes label code := code = List.cons label
  forms _ form := form = fun packet => [0, packet]
  packetOf holder
    | [packet] => if holder.ordinal = 0 then some packet else none
    | _ => none
  codes := [List.cons 1, List.cons 2]
  form packet := [0, packet]
  mainPacketHandler := ⟨0⟩
  packetHandlers := []

private theorem labelling_readsBack : labelling.ReadsBack labels where
  writePipe := by
    rintro pipe input code bytes old rfl loaded held small -
    obtain ⟨⟨taken, rest⟩, read, rfl, emptied, reads⟩ := readAll_returns loaded small
    obtain ⟨writerBuffer, wrote, appended⟩ := writeBytes_represents held.represents (pipe.state :: taken)
    simp only [labelling, read, wrote, ok_bind, pure_is_ok, returns_ok, success_isSuccess, success_value]
    exact ⟨trivial, by simp, reads, emptied.content, appended.holds, rfl⟩
  readPipe := by
    rintro pipe input code bytes old rfl loaded held small -
    obtain ⟨⟨label, behind⟩, first, -, remaining⟩ := readByte_represents loaded.represents
    obtain ⟨⟨taken, rest⟩, read, rfl, emptied, -⟩ := readAll_returns remaining.holds small
    obtain ⟨readerBuffer, wrote, appended⟩ := writeBytes_represents held.represents taken
    simp only [labelling, first, read, wrote, ok_bind, pure_is_ok, returns_ok]
    exact ⟨emptied, appended.holds, rfl⟩
  writePacket := by
    rintro pipe buffer form packet rfl empty -
    obtain ⟨after, wrote, -⟩ := writeBytes_represents empty [0, packet]
    simp only [labelling, wrote, ok_bind, pure_is_ok, returns_ok, success_isSuccess, success_value, true_and]
    refine ⟨⟨[.writeBytes [0, packet]], [.pushed], by simp [Operation.IsWrite], rfl, ?_⟩, rfl⟩
    simp only [Transition.run, ByteBufferImpl.step, wrote, ok_bind, pure_is_ok]
  readPacket := by
    rintro pipe buffer form packet rfl loaded -
    obtain ⟨⟨ordinal, rest⟩, read, rfl, remaining⟩ := readByte_represents loaded.represents
    simp only [labelling, read, ok_bind, pure_is_ok, returns_ok, success_isSuccess, success_value, true_and]
    exact ⟨rfl, [packet], remaining.holds, rfl⟩

private theorem labelling_takesPackets : labelling.TakesPackets labels where
  mainPacketHandler := by
    intro user holder buffer packet body loaded known
    simp only [labels] at known
    split at known
    · split at known
      · rename_i announced
        obtain ⟨⟨byte, rest⟩, read, -, emptied⟩ := readByte_represents loaded.represents
        have registered : PacketHandler.lookup [[some takeByte]] labels.mainPacketHandler holder.ordinal =
            some takeByte := by
          rw [announced]
          rfl
        simp only [PacketHandler.handle, labelling, registered, takeByte, read, ok_bind]
        exact (returns_ok _ _).mpr emptied.holds
      · cases known
    · cases known
  packetHandlers := by simp [labels]

private def labellingConnection : PipedConnection UInt8 Unit Unit where
  pipeline := [1, 2].map fun label =>
    { readerBuffer := .new (fun _ _ => 0) 3, writerBuffer := .new (fun _ _ => 0) 2, state := label }
  bytePacketPipe := ()
  mainPacketHandler := ⟨0⟩
  packetHandlers := []
  readerBuffer := .new (fun _ _ => 0) 2
  writerBuffer := .new (fun _ _ => 0) 3
  readWriteCloser := {}
  user := ()

private theorem labelling_ready : Ready labels
    ⟨labellingConnection, .new (fun _ _ => 0) maxPacketSize, labellingConnection, []⟩ where
  sender := ⟨resettable_new _, (represents_new _ (by decide : 0 < maxPacketSize)).content,
    .cons ⟨rfl, (represents_new _ (by decide : 0 < 2)).holds⟩
      (.cons ⟨rfl, (represents_new _ (by decide : 0 < 2)).holds⟩ .nil),
    rfl, (represents_new _ (by decide : 0 < 3)).wellFormed⟩
  receiver := ⟨(represents_new _ (by decide : 0 < 2)).holds,
    .cons ⟨rfl, (represents_new _ (by decide : 0 < 3)).holds⟩
      (.cons ⟨rfl, (represents_new _ (by decide : 0 < 3)).holds⟩ .nil),
    rfl, rfl, rfl⟩

private theorem small_of_short (nonempty : bytes ≠ []) (short : bytes.length ≤ 4) : Small bytes where
  nonempty := nonempty
  few := Nat.lt_of_le_of_lt short (by decide)

/-- Two packets through two pipes. -/
theorem two_packets_pass_unchanged : ∃ final pages,
    Transition.run (step labelling) ⟨labellingConnection, .new (fun _ _ => 0) maxPacketSize, labellingConnection, []⟩
        [⟨5, fun _ => 0⟩, ⟨9, fun _ => 0⟩] = .ok (final, pages) ∧
      mainGiven labels final.given = [some 5, some 9] ∧ final.BuffersEmpty :=
  packets_pass_unchanged labelling_readsBack labelling_takesPackets _ labelling_ready rfl _ fun sending _ =>
    ⟨small_of_short (by simp) (by simp [encoded, labels]), small_of_short (by simp) (by simp [encoded, labels]),
      small_of_short (by simp [labels]) (by simp [labels])⟩

end Exchange

end ShipNet
