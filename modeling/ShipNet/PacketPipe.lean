import ShipNet.ByteBufferInvariant
import ShipNet.Codec

/-! `FramedBytePacketPipe`: a length as `VarInt`, then a frame of that length,
handed to the `ReadPacket` of a subclass. -/
namespace ShipNet
open Fallible

/-- A packet that is announced but not read yet. Its `currentBuffer` is the buffer
that `ReadPacket` was called on, so a holder travels with that buffer. -/
structure PacketHolder where
  ordinal : UInt32
  /-- The address of a `ProtocolVersion`. -/
  version : Nat
  expectedSize : UInt32
  deriving DecidableEq, Repr, Inhabited

def incompleteFrameErrorable (argument : UInt64) : Errorable PacketHolder :=
  invalidArgumentErrorable .incompleteFrame argument

def invalidFrameErrorable (argument : UInt64) : Errorable PacketHolder :=
  invalidArgumentErrorable .invalidFrame argument

/-- `ReadPacket(in, frame_size)` of a subclass, over the subclass's own state `δ`. -/
abbrev ReadPacket (δ : Type) : Type :=
  δ → ByteBufferImpl → (frameSize : UInt32) → Exec (Errorable PacketHolder × δ × ByteBufferImpl)

/-- `FramedBytePacketPipe`, with the state of its subclass. -/
structure FramedBytePacketPipe (δ : Type) where
  nextReadFrameLength : UInt32 := 0
  maxReadSize : UInt32
  decoder : δ

namespace FramedBytePacketPipe

variable {δ : Type} (readPacket : ReadPacket δ)

/-- An answer of `Read`: its result, the pipe and the input after it, and the
readable bytes that `ReadPacket` was called for. -/
structure Answer (δ : Type) where
  packet : Errorable PacketHolder
  pipe : FramedBytePacketPipe δ
  input : ByteBufferImpl
  frame : List UInt8

/-- `Read` from the second `if` on. `readableBytes` was taken at the start. -/
def readFrame (pipe : FramedBytePacketPipe δ) (input : ByteBufferImpl) (readableBytes : Nat) :
    Exec (Answer δ) :=
  if pipe.nextReadFrameLength ≠ 0 ∧ readableBytes ≥ pipe.nextReadFrameLength.toNat then do
    let frame := input.content.take pipe.nextReadFrameLength.toNat
    let (packet, decoder, input) ← readPacket pipe.decoder input pipe.nextReadFrameLength
    pure {
      packet := packet
      pipe := { pipe with nextReadFrameLength := 0, decoder := decoder }
      input := input
      frame := frame }
  else pure {
    packet := incompleteFrameErrorable (.ofNat readableBytes)
    pipe := pipe
    input := input
    frame := [] }

/-- `Read(ByteBuffer* in)`. -/
def read (pipe : FramedBytePacketPipe δ) (input : ByteBufferImpl) : Exec (Answer δ) :=
  let readableBytes := input.readableBytes
  if pipe.nextReadFrameLength = 0 then
    if readableBytes = 0 then
      pure { packet := incompleteFrameErrorable 0, pipe := pipe, input := input, frame := [] }
    else do
      let (nextReadFrameLengthErrorable, input) ← input.readVarInt
      let frameLength := nextReadFrameLengthErrorable.value
      if nextReadFrameLengthErrorable.isSuccess then
        if frameLength > pipe.maxReadSize then
          pure { packet := invalidFrameErrorable frameLength.toUInt64, pipe := pipe, input := input, frame := [] }
        else readFrame readPacket { pipe with nextReadFrameLength := frameLength } input readableBytes
      else if nextReadFrameLengthErrorable.typeOrdinal ≠ .incompleteVarInt then
        pure { packet := invalidFrameErrorable frameLength.toUInt64, pipe := pipe, input := input, frame := [] }
      else readFrame readPacket pipe input readableBytes
  else readFrame readPacket pipe input readableBytes

end FramedBytePacketPipe

end ShipNet
