import ShipNet.PacketHandler

/-! `Connection::HandleNewBytes`, over what it uses of a connection: bytes read from the
socket go through the byte pipes into the packet pipe, and a packet to the handlers. -/
namespace ShipNet
open Fallible

/-- Which handler of a connection a packet is offered to. -/
inductive Receiver
  | mainPacketHandler
  | packetHandlers
  deriving DecidableEq, Repr

/-- The buffers that bytes go through in a connection `κ` with byte pipes `α`. -/
structure PipedBuffers (κ α : Type) where
  readerBuffer : κ → ByteBufferImpl
  pipeline : κ → List α
  setBuffers : κ → ByteBufferImpl → List α → κ
  /-- `GetReaderBuffer()` of a byte pipe. -/
  pipeBuffer : α → ByteBufferImpl
  setPipeBuffer : α → ByteBufferImpl → α

namespace PipedBuffers

variable {κ α : Type} (buffers : PipedBuffers κ α)

/-- The buffer that the packet pipe reads: that of the last byte pipe. -/
def packetBuffer (c : κ) : ByteBufferImpl :=
  match (buffers.pipeline c).getLast? with
  | some pipe => buffers.pipeBuffer pipe
  | none => buffers.readerBuffer c

def setPacketBuffer (c : κ) (buffer : ByteBufferImpl) : κ :=
  match (buffers.pipeline c).getLast? with
  | some pipe =>
    buffers.setBuffers c (buffers.readerBuffer c) ((buffers.pipeline c).dropLast ++ [buffers.setPipeBuffer pipe buffer])
  | none => buffers.setBuffers c buffer (buffers.pipeline c)

end PipedBuffers

/-- What `HandleNewBytes` uses of a connection, over the state `γ` of the application. The
packet pipe may show something of a packet, `φ`, to those who keep a record of it. -/
structure Incoming (κ α γ φ : Type) extends PipedBuffers κ α where
  /-- `Read` of a byte pipe. -/
  readPipe : α → ByteBufferImpl → Exec (Errorable Nat × α × ByteBufferImpl)
  /-- `bytePacketPipe->Read(currentBuffer)`. -/
  readPacket : κ → Exec (Errorable PacketHolder × φ × κ)
  callbacks : List (List (Option (Callback γ)))
  mainPacketHandler : κ → PacketHandler
  packetHandlers : κ → List PacketHandler
  user : κ → γ
  /-- The connection behind a call of `Handle`. -/
  handled : κ → Receiver → PacketHolder → φ → γ → ByteBufferImpl → List Invocation → κ
  close : κ → κ

namespace Incoming

variable {κ α γ φ : Type} (incoming : Incoming κ α γ φ)

/-- The loop over the pipeline: every pipe reads the buffer of the one before it. -/
def readPipeline (currentBuffer : ByteBufferImpl) : List α → Exec (ByteBufferImpl × List α)
  | [] => pure (currentBuffer, [])
  | byteBytePipe :: later => do
    let (_, byteBytePipe, currentBuffer) ← incoming.readPipe byteBytePipe currentBuffer
    let (readerBuffer, later) ← readPipeline (incoming.pipeBuffer byteBytePipe) later
    pure (currentBuffer, incoming.setPipeBuffer byteBytePipe readerBuffer :: later)

/-- `HandleNewBytes` up to the packet pipe. -/
def receive (c : κ) (page : List UInt8) : Exec κ := do
  let readerBuffer ← (incoming.readerBuffer c).writeBytes page
  let (readerBuffer, pipeline) ← incoming.readPipeline readerBuffer (incoming.pipeline c)
  pure (incoming.setBuffers c readerBuffer pipeline)

/-- `handler->Handle(handler, this, packet)`. -/
def offer (c : κ) (receiver : Receiver) (handler : PacketHandler) (packet : PacketHolder) (shown : φ) :
    Exec (Errorable Bool × κ) := do
  let (wasHandled, user, buffer, invocations) ←
    handler.handle incoming.callbacks (incoming.user c) packet (incoming.packetBuffer c)
  pure (wasHandled, incoming.handled c receiver packet shown user buffer invocations)

/-- `for (const auto& item : packetHandlers)`. An error closes the connection and
does not end the loop; its value is `false`. -/
def offerFurther (packet : PacketHolder) (shown : φ) : List PacketHandler → κ → Exec κ
  | [], c => pure c
  | item :: later, c => do
    let (wasHandled, c) ← incoming.offer c .packetHandlers item packet shown
    let c := if !wasHandled.isSuccess then incoming.close c else c
    if wasHandled.value then pure c else offerFurther packet shown later c

/-- `HandleNewBytes` from `if (packet.IsSuccess())` on. -/
def dispatch (c : κ) (packet : Errorable PacketHolder) (shown : φ) : Exec κ :=
  if packet.isSuccess then do
    let (wasHandled, c) ← incoming.offer c .mainPacketHandler (incoming.mainPacketHandler c) packet.value shown
    if !wasHandled.isSuccess then pure (incoming.close c)
    else if !wasHandled.value then incoming.offerFurther packet.value shown (incoming.packetHandlers c) c
    else pure c
  else if packet.typeOrdinal ≠ .incompleteFrame then pure (incoming.close c)
  else pure c

/-- `HandleNewBytes` from `bytePacketPipe->Read(currentBuffer)` on. -/
def handlePacket (c : κ) : Exec κ := do
  let (packet, shown, c) ← incoming.readPacket c
  incoming.dispatch c packet shown

/-- `HandleNewBytes(page, page_size)`. -/
def handleNewBytes (c : κ) (page : List UInt8) : Exec κ := do
  let c ← incoming.receive c page
  incoming.handlePacket c

/-- The same, beside a record of what the handlers are given. -/
def recording {ω : Type} (note : κ → Receiver → PacketHolder → φ → ω) : Incoming (κ × List ω) α γ φ where
  readerBuffer r := incoming.readerBuffer r.1
  pipeline r := incoming.pipeline r.1
  setBuffers r readerBuffer pipeline := (incoming.setBuffers r.1 readerBuffer pipeline, r.2)
  pipeBuffer := incoming.pipeBuffer
  setPipeBuffer := incoming.setPipeBuffer
  readPipe := incoming.readPipe
  readPacket r := do
    let (packet, shown, c) ← incoming.readPacket r.1
    pure (packet, shown, (c, r.2))
  callbacks := incoming.callbacks
  mainPacketHandler r := incoming.mainPacketHandler r.1
  packetHandlers r := incoming.packetHandlers r.1
  user r := incoming.user r.1
  handled r receiver packet shown user buffer invocations :=
    (incoming.handled r.1 receiver packet shown user buffer invocations, r.2 ++ [note r.1 receiver packet shown])
  close r := (incoming.close r.1, r.2)

end Incoming

end ShipNet
