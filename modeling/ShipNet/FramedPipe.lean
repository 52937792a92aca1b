import ShipNet.ByteBufferInvariant
import ShipNet.Codec

/-! The framed pipes: a length as `VarInt`, then a frame of that length, handed
to the method of a subclass that decodes it. -/
namespace ShipNet
open Fallible

def incompleteByteFrameErrorable (argument : UInt64) : Errorable Nat :=
  invalidArgumentErrorable .incompleteByteFrame argument

def invalidByteFrameErrorable (argument : UInt64) : Errorable Nat :=
  invalidArgumentErrorable .invalidByteFrame argument

/-- `DecodeFrame(in, frame_size)` of a subclass, over the subclass's own state `δ`. -/
abbrev DecodeFrame (δ : Type) : Type :=
  δ → ByteBufferImpl → (frameSize : UInt32) → Exec (Errorable Nat × δ × ByteBufferImpl)

/-- A call of `DecodeFrame`: its argument, and as many of the readable bytes. -/
structure DecodeCall where
  frameSize : UInt32
  frame : List UInt8
  deriving DecidableEq

/-- The reading side of `FramedByteBytePipe`. -/
structure FramedByteBytePipe where
  nextReadFrameLength : UInt32 := 0
  maxReadSize : UInt32

namespace FramedByteBytePipe

/-- A pipe, its decoder and its input, with the calls of `DecodeFrame` so far. -/
structure Reader (δ : Type) where
  pipe : FramedByteBytePipe
  decoder : δ
  input : ByteBufferImpl
  calls : List DecodeCall

variable {δ : Type} (decodeFrame : DecodeFrame δ)

/-- `Read` from `size_t frameLength = nextReadFrameLength` on. -/
def readFrame (r : Reader δ) : Exec (Errorable Nat × Reader δ) :=
  let frameLength := r.pipe.nextReadFrameLength
  if r.input.readableBytes ≥ frameLength.toNat then do
    let call : DecodeCall := ⟨frameLength, r.input.content.take frameLength.toNat⟩
    let (frameErrorable, decoder, input) ← decodeFrame r.decoder r.input frameLength
    pure (frameErrorable, {
      pipe := { r.pipe with nextReadFrameLength := 0 }
      decoder := decoder
      input := input
      calls := r.calls ++ [call] })
  else pure (incompleteByteFrameErrorable frameLength.toUInt64, r)

/-- `Read(ByteBuffer* in)`. -/
def read (r : Reader δ) : Exec (Errorable Nat × Reader δ) :=
  if r.pipe.nextReadFrameLength = 0 then do
    let (nextReadFrameLengthErrorable, input) ← r.input.readVarInt
    let r := { r with input := input }
    let frameLength := nextReadFrameLengthErrorable.value
    if nextReadFrameLengthErrorable.isSuccess then
      if frameLength > r.pipe.maxReadSize then
        pure (invalidByteFrameErrorable frameLength.toUInt64, r)
      else readFrame decodeFrame { r with pipe := { r.pipe with nextReadFrameLength := frameLength } }
    else if nextReadFrameLengthErrorable.typeOrdinal = .incompleteVarInt then
      pure (incompleteByteFrameErrorable frameLength.toUInt64, r)
    else pure (invalidByteFrameErrorable frameLength.toUInt64, r)
  else readFrame decodeFrame r

/-- A call of `Read`, and the end where it answers `IncompleteByteFrameErrorable`. -/
def readRound (r : Reader δ) : Exec (Round (Reader δ) (Reader δ)) := do
  let (result, r) ← read decodeFrame r
  if result.typeOrdinal = .incompleteByteFrame then pure (.leave r) else pure (.again r)

/-- Calls of `Read` until one answers `IncompleteByteFrameErrorable`. Every other
one takes at least a byte, so there are never more than there are bytes. -/
def readUntilIncomplete (r : Reader δ) : Exec (Reader δ) :=
  loop .endless (readRound decodeFrame) (r.input.readableBytes + 1) r

/-- Arrivals appended to the input, each of them read until it is used up. -/
def deliver (r : Reader δ) : List (List UInt8) → Exec (Reader δ)
  | [] => pure r
  | arrival :: later => do
    let input ← r.input.writeBytes arrival
    let r ← readUntilIncomplete decodeFrame { r with input := input }
    deliver r later

/-- A fresh pipe on an empty buffer. -/
def Reader.start (heap : Nat → Block UInt8) (cap : Nat) (maxReadSize : UInt32) (decoder : δ) : Reader δ where
  pipe := { maxReadSize := maxReadSize }
  decoder := decoder
  input := .new heap cap
  calls := []

end FramedByteBytePipe

/-- `EncodeFrame(in, frame_size)` of a subclass, over the subclass's own state `δ`. -/
abbrev EncodeFrame (δ : Type) : Type :=
  δ → ByteBufferImpl → (frameSize : UInt32) → Exec (Errorable Nat × δ × ByteBufferImpl)

namespace FramedByteBytePipe

/-- The writing side of a pipe, with its encoder and its input. -/
structure Writer (δ : Type) where
  nextWriteFrameLength : UInt32 := 0
  encoder : δ
  input : ByteBufferImpl

variable {δ : Type} (encodeFrame : EncodeFrame δ)

/-- `Write` from `size_t frameLength = nextWriteFrameLength` on. `readableBytes` was taken
at the start. -/
def writeFrame (w : Writer δ) (readableBytes : Nat) : Exec (Errorable Nat × Writer δ) :=
  let frameLength := w.nextWriteFrameLength
  if readableBytes ≥ frameLength.toNat then do
    let (frameErrorable, encoder, input) ← encodeFrame w.encoder w.input frameLength
    pure (frameErrorable, { nextWriteFrameLength := 0, encoder := encoder, input := input })
  else pure (incompleteByteFrameErrorable frameLength.toUInt64, w)

/-- `Write(ByteBuffer* in)`. It does not ask for `maxReadSize`. -/
def write (w : Writer δ) : Exec (Errorable Nat × Writer δ) :=
  let readableBytes := w.input.readableBytes
  if w.nextWriteFrameLength = 0 then
    if readableBytes = 0 then pure (incompleteByteFrameErrorable (.ofNat readableBytes), w)
    else do
      let (nextWriteFrameLengthErrorable, input) ← w.input.readVarInt
      let w := { w with input := input }
      let frameLength := nextWriteFrameLengthErrorable.value
      if nextWriteFrameLengthErrorable.isSuccess then
        writeFrame encodeFrame { w with nextWriteFrameLength := frameLength } readableBytes
      else if nextWriteFrameLengthErrorable.typeOrdinal = .incompleteVarInt then
        pure (incompleteByteFrameErrorable frameLength.toUInt64, w)
      else pure (invalidByteFrameErrorable frameLength.toUInt64, w)
  else writeFrame encodeFrame w readableBytes

end FramedByteBytePipe

end ShipNet
