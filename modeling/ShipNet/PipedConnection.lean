import ShipNet.Connection

/-! `Connection` in both directions, over any classes of pipes: `Write` takes a packet
through the packet pipe and the byte pipes into `writerBuffer`, `HandleNewBytes` the
bytes of the other side back to the handlers. -/
namespace ShipNet
open Fallible

/-- A byte pipe with both of its buffers. -/
structure DuplexPipe (π : Type) extends ByteBytePipe π where
  writerBuffer : ByteBufferImpl

/-- What an application brings: `Read` and `Write` of its pipes, for byte pipes of
state `π`, packet pipes of state `ρ` and packets `ψ`, and its callbacks. -/
structure Protocol (π ρ ψ γ : Type) where
  readPipe : DuplexPipe π → ByteBufferImpl → Exec (Errorable Nat × DuplexPipe π × ByteBufferImpl)
  writePipe : DuplexPipe π → ByteBufferImpl → Exec (Errorable Nat × DuplexPipe π × ByteBufferImpl)
  readPacket : ρ → ByteBufferImpl → Exec (Errorable PacketHolder × ρ × ByteBufferImpl)
  writePacket : ρ → ByteBufferImpl → ψ → Exec (Errorable Bool × ρ × ByteBufferImpl)
  callbacks : List (List (Option (Callback γ)))

structure PipedConnection (π ρ γ : Type) where
  pipeline : List (DuplexPipe π)
  bytePacketPipe : ρ
  mainPacketHandler : PacketHandler
  packetHandlers : List PacketHandler
  readerBuffer : ByteBufferImpl
  writerBuffer : ByteBufferImpl
  readWriteCloser : UnixReadWriteCloser
  user : γ

namespace PipedConnection

variable {π ρ ψ γ : Type} (protocol : Protocol π ρ ψ γ)

def close (c : PipedConnection π ρ γ) : PipedConnection π ρ γ :=
  { c with readWriteCloser := c.readWriteCloser.close }

/-! ### `Write` -/

/-- How the stages in front of `WriteDirect` end: it is reached, a stage has nothing
to pass on, or a stage fails. -/
inductive Outcome where
  | passed
  | declined
  | failed
  deriving DecidableEq, Repr

/-- The byte pipes that were run and are left, the last one first, with the buffer
that the first of them was offered. -/
structure Stages (π : Type) where
  input : ByteBufferImpl
  pipes : List (DuplexPipe π)
  outcome : Outcome

/-- The loop over the pipeline from its end, from one of its pipes on. -/
def writeStages (buffer : ByteBufferImpl) : List (DuplexPipe π) → Exec (Stages π)
  | [] => pure { input := buffer, pipes := [], outcome := .passed }
  | pipe :: earlier => do
    let (pipeShouldWriteErrorable, pipe, input) ← protocol.writePipe pipe buffer
    if !pipeShouldWriteErrorable.isSuccess then
      pure { input := input, pipes := pipe :: earlier, outcome := .failed }
    else if pipeShouldWriteErrorable.value = 0 then
      pure { input := input, pipes := pipe :: earlier, outcome := .declined }
    else do
      let stages ← writeStages pipe.writerBuffer earlier
      pure {
        input := input
        pipes := { pipe with writerBuffer := stages.input } :: stages.pipes
        outcome := stages.outcome }

/-- What `Write` leaves in front of `WriteDirect`. -/
structure Prepared (π ρ : Type) where
  connectionWriteBuffer : ByteBufferImpl
  bytePacketPipe : ρ
  pipeline : List (DuplexPipe π)
  outcome : Outcome

/-- `Write(packet)` in front of `WriteDirect`. -/
def prepare (c : PipedConnection π ρ γ) (connectionWriteBuffer : ByteBufferImpl) (packet : ψ) :
    Exec (Prepared π ρ) := do
  let buffer := connectionWriteBuffer.resetReaderIndex.resetWriterIndex
  let (shouldWriteErrorable, bytePacketPipe, buffer) ← protocol.writePacket c.bytePacketPipe buffer packet
  let prepared : Prepared π ρ := {
    connectionWriteBuffer := buffer
    bytePacketPipe := bytePacketPipe
    pipeline := c.pipeline
    outcome := .declined }
  if !shouldWriteErrorable.isSuccess then pure { prepared with outcome := .failed }
  else if shouldWriteErrorable.value then do
    let stages ← writeStages protocol buffer c.pipeline.reverse
    pure { prepared with
      connectionWriteBuffer := stages.input
      pipeline := stages.pipes.reverse
      outcome := stages.outcome }
  else pure prepared

namespace Prepared

/-- The last `buffer` of the loop: that of the front pipe, if there is one. -/
def frontBuffer (prepared : Prepared π ρ) : ByteBufferImpl :=
  match prepared.pipeline with
  | [] => prepared.connectionWriteBuffer
  | pipe :: _ => pipe.writerBuffer

def setFrontBuffer (prepared : Prepared π ρ) (buffer : ByteBufferImpl) : Prepared π ρ :=
  match prepared.pipeline with
  | [] => { prepared with connectionWriteBuffer := buffer }
  | pipe :: later => { prepared with pipeline := { pipe with writerBuffer := buffer } :: later }

end Prepared

/-- `Write(packet)`. `scratch` is what the thread's `byteBufferWriteBuffer` holds when
`WriteDirect` is reached. Answers the connection and the thread's `connectionWriteBuffer`. -/
def write (c : PipedConnection π ρ γ) (connectionWriteBuffer : ByteBufferImpl) (packet : ψ)
    (scratch : Block UInt8) : Exec (PipedConnection π ρ γ × ByteBufferImpl) := do
  let prepared ← prepare protocol c connectionWriteBuffer packet
  let c := { c with bytePacketPipe := prepared.bytePacketPipe }
  match prepared.outcome with
  | .failed => pure ({ c.close with pipeline := prepared.pipeline }, prepared.connectionWriteBuffer)
  | .declined => pure ({ c with pipeline := prepared.pipeline }, prepared.connectionWriteBuffer)
  | .passed => do
    let buffer := prepared.frontBuffer
    let (writerBuffer, _, buffer) ← c.writerBuffer.writeBytesFrom scratch buffer buffer.readableBytes
    let after := prepared.setFrontBuffer buffer
    pure ({ c with pipeline := after.pipeline, writerBuffer := writerBuffer }, after.connectionWriteBuffer)

/-! ### `HandleNewBytes` -/

/-- The buffers that bytes come in by. -/
def buffers (π ρ γ : Type) : PipedBuffers (PipedConnection π ρ γ) (DuplexPipe π) where
  readerBuffer c := c.readerBuffer
  pipeline c := c.pipeline
  setBuffers c readerBuffer pipeline := { c with readerBuffer := readerBuffer, pipeline := pipeline }
  pipeBuffer pipe := pipe.readerBuffer
  setPipeBuffer pipe buffer := { pipe with readerBuffer := buffer }

def packetBuffer (c : PipedConnection π ρ γ) : ByteBufferImpl := (buffers π ρ γ).packetBuffer c

def setPacketBuffer (c : PipedConnection π ρ γ) (buffer : ByteBufferImpl) : PipedConnection π ρ γ :=
  (buffers π ρ γ).setPacketBuffer c buffer

/-- What `HandleNewBytes` uses of it. -/
def incoming : Incoming (PipedConnection π ρ γ) (DuplexPipe π) γ Unit where
  toPipedBuffers := buffers π ρ γ
  readPipe := protocol.readPipe
  readPacket c := do
    let (packet, bytePacketPipe, buffer) ← protocol.readPacket c.bytePacketPipe c.packetBuffer
    pure (packet, (), { c.setPacketBuffer buffer with bytePacketPipe := bytePacketPipe })
  callbacks := protocol.callbacks
  mainPacketHandler c := c.mainPacketHandler
  packetHandlers c := c.packetHandlers
  user c := c.user
  handled c _ _ _ user buffer _ := { c.setPacketBuffer buffer with user := user }
  close := close

/-- `handler->Handle(handler, this, packet)`. -/
def offer (c : PipedConnection π ρ γ) (receiver : Receiver) (handler : PacketHandler) (packet : PacketHolder) :
    Exec (Errorable Bool × PipedConnection π ρ γ) :=
  (incoming protocol).offer c receiver handler packet ()

/-- `HandleNewBytes` from `if (packet.IsSuccess())` on. -/
def dispatch (c : PipedConnection π ρ γ) (packet : Errorable PacketHolder) : Exec (PipedConnection π ρ γ) :=
  (incoming protocol).dispatch c packet ()

/-- `HandleNewBytes(page, page_size)`. -/
def handleNewBytes (c : PipedConnection π ρ γ) (page : List UInt8) : Exec (PipedConnection π ρ γ) :=
  (incoming protocol).handleNewBytes c page

theorem handlePacket_eq (c : PipedConnection π ρ γ) : (incoming protocol).handlePacket c =
    protocol.readPacket c.bytePacketPipe c.packetBuffer >>= fun read =>
      dispatch protocol { c.setPacketBuffer read.2.2 with bytePacketPipe := read.2.1 } read.1 := by
  show (protocol.readPacket c.bytePacketPipe c.packetBuffer >>= _) >>= _ = _
  cases protocol.readPacket c.bytePacketPipe c.packetBuffer with
  | error fault => rfl
  | ok read => rfl

end PipedConnection

end ShipNet
