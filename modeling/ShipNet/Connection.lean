import ShipNet.HandleNewBytes
import ShipNet.UnixReadWriteCloser

/-! The incoming side of `Connection` with a `FramedBytePacketPipe`, beside what its
handlers are offered and which callbacks are called. -/
namespace ShipNet
open Fallible

/-- A pipe of the pipeline: the buffer it writes to and the state of its class. -/
structure ByteBytePipe (π : Type) where
  readerBuffer : ByteBufferImpl
  state : π

/-- What an application brings: `Read` of its byte pipes, `ReadPacket` of its
packet pipe, and the callbacks it registered. -/
structure Application (π δ γ : Type) where
  readBytePipe : ByteBytePipe π → ByteBufferImpl → Exec (Errorable Nat × ByteBytePipe π × ByteBufferImpl)
  readPacket : ReadPacket δ
  callbacks : List (List (Option (Callback γ)))

/-- A packet offered to a handler, with the frame it was read from. -/
structure Offer where
  receiver : Receiver
  packet : PacketHolder
  frame : List UInt8

/-- A connection, with what its handlers have been offered and which callbacks
have been called. -/
structure Connection (π δ γ : Type) where
  pipeline : List (ByteBytePipe π)
  bytePacketPipe : FramedBytePacketPipe δ
  mainPacketHandler : PacketHandler
  packetHandlers : List PacketHandler
  readerBuffer : ByteBufferImpl
  readWriteCloser : UnixReadWriteCloser
  user : γ
  offers : List Offer
  invocations : List Invocation

namespace Connection

variable {π δ γ : Type}

/-- `Connection(...)`, with the pipes appended since. -/
def new (heap : Nat → Block UInt8) (readerBufferLength : Nat) (pipeline : List (ByteBytePipe π))
    (bytePacketPipe : FramedBytePacketPipe δ) (mainPacketHandler : PacketHandler)
    (packetHandlers : List PacketHandler) (user : γ) : Connection π δ γ where
  pipeline := pipeline
  bytePacketPipe := bytePacketPipe
  mainPacketHandler := mainPacketHandler
  packetHandlers := packetHandlers
  readerBuffer := .new heap readerBufferLength
  readWriteCloser := {}
  user := user
  offers := []
  invocations := []

def close (c : Connection π δ γ) : Connection π δ γ :=
  { c with readWriteCloser := c.readWriteCloser.close }

/-- The buffers of a connection. -/
def buffers (π δ γ : Type) : PipedBuffers (Connection π δ γ) (ByteBytePipe π) where
  readerBuffer c := c.readerBuffer
  pipeline c := c.pipeline
  setBuffers c readerBuffer pipeline := { c with readerBuffer := readerBuffer, pipeline := pipeline }
  pipeBuffer pipe := pipe.readerBuffer
  setPipeBuffer pipe buffer := { pipe with readerBuffer := buffer }

def packetBuffer (c : Connection π δ γ) : ByteBufferImpl := (buffers π δ γ).packetBuffer c

def setPacketBuffer (c : Connection π δ γ) (buffer : ByteBufferImpl) : Connection π δ γ :=
  (buffers π δ γ).setPacketBuffer c buffer

variable (app : Application π δ γ)

/-- What `HandleNewBytes` uses of it. The frame of a packet is kept with its offers. -/
def incoming : Incoming (Connection π δ γ) (ByteBytePipe π) γ (List UInt8) where
  toPipedBuffers := buffers π δ γ
  readPipe := app.readBytePipe
  readPacket c := do
    let answer ← c.bytePacketPipe.read app.readPacket c.packetBuffer
    pure (answer.packet, answer.frame, { c.setPacketBuffer answer.input with bytePacketPipe := answer.pipe })
  callbacks := app.callbacks
  mainPacketHandler c := c.mainPacketHandler
  packetHandlers c := c.packetHandlers
  user c := c.user
  handled c receiver packet frame user buffer invocations := { c.setPacketBuffer buffer with
    user := user
    offers := c.offers ++ [⟨receiver, packet, frame⟩]
    invocations := c.invocations ++ invocations }
  close := close

/-- `HandleNewBytes` up to the packet pipe. -/
def receive (c : Connection π δ γ) (page : List UInt8) : Exec (Connection π δ γ) := (incoming app).receive c page

/-- `handler->Handle(handler, this, packet)`. -/
def offer (c : Connection π δ γ) (receiver : Receiver) (handler : PacketHandler) (packet : PacketHolder)
    (frame : List UInt8) : Exec (Errorable Bool × Connection π δ γ) :=
  (incoming app).offer c receiver handler packet frame

/-- `for (const auto& item : packetHandlers)`. -/
def offerFurther (packet : PacketHolder) (frame : List UInt8) :
    List PacketHandler → Connection π δ γ → Exec (Connection π δ γ) :=
  (incoming app).offerFurther packet frame

/-- `HandleNewBytes` from `if (packet.IsSuccess())` on. -/
def dispatch (c : Connection π δ γ) (packet : Errorable PacketHolder) (frame : List UInt8) :
    Exec (Connection π δ γ) :=
  (incoming app).dispatch c packet frame

/-- `HandleNewBytes(page, page_size)`. -/
def handleNewBytes (c : Connection π δ γ) (page : List UInt8) : Exec (Connection π δ γ) :=
  (incoming app).handleNewBytes c page

/-! ### What a caller sees of the code -/

variable {app} {c : Connection π δ γ}

/-- Without byte pipes. -/
theorem receive_plain (plain : c.pipeline = []) (page : List UInt8) :
    receive app c page = c.readerBuffer.writeBytes page >>= fun buffer => pure { c with readerBuffer := buffer } := by
  simp only [receive, Incoming.receive, incoming, buffers, plain, Incoming.readPipeline]
  cases c.readerBuffer.writeBytes page with
  | error fault => rfl
  | ok buffer => simp [← plain]

theorem setPacketBuffer_buffers (c : Connection π δ γ) (buffer : ByteBufferImpl) :
    ∃ readerBuffer pipeline,
      c.setPacketBuffer buffer = { c with readerBuffer := readerBuffer, pipeline := pipeline } := by
  unfold setPacketBuffer PipedBuffers.setPacketBuffer
  cases ((buffers π δ γ).pipeline c).getLast? with
  | none => exact ⟨_, _, rfl⟩
  | some pipe => exact ⟨_, _, rfl⟩

theorem packetBuffer_plain (plain : c.pipeline = []) : c.packetBuffer = c.readerBuffer := by
  simp [packetBuffer, PipedBuffers.packetBuffer, buffers, plain]

theorem setPacketBuffer_plain (plain : c.pipeline = []) (buffer : ByteBufferImpl) :
    c.setPacketBuffer buffer = { c with readerBuffer := buffer } := by
  simp [setPacketBuffer, PipedBuffers.setPacketBuffer, buffers, plain]

theorem offer_eq (receiver : Receiver) (handler : PacketHandler) (packet : PacketHolder) (frame : List UInt8) :
    offer app c receiver handler packet frame =
      handler.handle app.callbacks c.user packet c.packetBuffer >>= fun handled =>
        pure (handled.1, { c.setPacketBuffer handled.2.2.1 with
          user := handled.2.1
          offers := c.offers ++ [⟨receiver, packet, frame⟩]
          invocations := c.invocations ++ handled.2.2.2 }) := rfl

theorem offerFurther_cons (packet : PacketHolder) (frame : List UInt8) (item : PacketHandler)
    (later : List PacketHandler) : offerFurther app packet frame (item :: later) c =
      offer app c .packetHandlers item packet frame >>= fun offered =>
        if offered.1.value then pure (if !offered.1.isSuccess then offered.2.close else offered.2)
        else offerFurther app packet frame later (if !offered.1.isSuccess then offered.2.close else offered.2) := rfl

theorem dispatch_eq (packet : Errorable PacketHolder) (frame : List UInt8) : dispatch app c packet frame =
    if packet.isSuccess then
      offer app c .mainPacketHandler c.mainPacketHandler packet.value frame >>= fun offered =>
        if !offered.1.isSuccess then pure offered.2.close
        else if !offered.1.value then offerFurther app packet.value frame offered.2.packetHandlers offered.2
        else pure offered.2
    else if packet.typeOrdinal ≠ .incompleteFrame then pure c.close
    else pure c := rfl

theorem handleNewBytes_eq (page : List UInt8) : handleNewBytes app c page =
    receive app c page >>= fun c => c.bytePacketPipe.read app.readPacket c.packetBuffer >>= fun answer =>
      dispatch app { c.setPacketBuffer answer.input with bytePacketPipe := answer.pipe } answer.packet
        answer.frame := by
  show receive app c page >>= (incoming app).handlePacket = _
  congr 1
  funext c
  show (c.bytePacketPipe.read app.readPacket c.packetBuffer >>= _) >>= _ = _
  cases c.bytePacketPipe.read app.readPacket c.packetBuffer with
  | error fault => rfl
  | ok answer => rfl

end Connection

end ShipNet
