import Mathlib.Logic.Function.Basic
import ShipNet.Block
import ShipNet.Errorable

/-! `ByteBufferImpl`: a byte queue over a deque of equal segments, with a
pointer to the segment being read and one to the segment being written. -/
namespace ShipNet
open Fallible

/-- A `uint8_t` array handed to an operation to be filled. -/
structure OutputArray where
  cells : Block UInt8
  size : Nat

/-- `std::copy` into the array. -/
def OutputArray.store (output : OutputArray) (offset : Nat) (bytes : List UInt8) : Exec OutputArray :=
  if output.size < offset + bytes.length then throw .outOfBounds
  else pure { output with cells := output.cells.write offset bytes }

/-- The fields of the class, and the part of the heap it owns. Segments are
named by address; `heap` gives every address contents before it is allocated,
since `new uint8_t[n]` leaves them unspecified. -/
structure ByteBufferImpl where
  heap : Nat → Block UInt8
  /-- The address `new` hands out next. -/
  nextSegment : Nat
  freed : List Nat
  buffers : List Nat
  singleCapacity : Nat
  currentReadBuffer : Nat
  currentWriteBuffer : Nat
  localReaderIndex : Nat
  localWriterIndex : Nat
  readableBytes : Nat

namespace ByteBufferImpl

/-- `ByteBufferImpl(size_t cap)`. -/
def new (heap : Nat → Block UInt8) (cap : Nat) : ByteBufferImpl where
  heap := heap
  nextSegment := 1
  freed := []
  buffers := [0]
  singleCapacity := cap
  currentReadBuffer := 0
  currentWriteBuffer := 0
  localReaderIndex := 0
  localWriterIndex := 0
  readableBytes := 0

/-- `ByteBufferImpl(uint8_t* buffer, size_t cap)`: the array is the first segment. -/
def ofArray (heap : Nat → Block UInt8) (buffer : Block UInt8) (cap : Nat) : ByteBufferImpl where
  heap := Function.update heap 0 buffer
  nextSegment := 1
  freed := []
  buffers := [0]
  singleCapacity := cap
  currentReadBuffer := 0
  currentWriteBuffer := 0
  localReaderIndex := 0
  localWriterIndex := 0
  readableBytes := 0

/-- A copy out of the segment being read. -/
def fetch (s : ByteBufferImpl) (offset count : Nat) : Exec (List UInt8) :=
  if s.currentReadBuffer ∈ s.freed then throw .freedSegment
  else if s.singleCapacity < offset + count then throw .outOfBounds
  else pure ((s.heap s.currentReadBuffer).read offset count)

/-- A copy into the segment being written. -/
def store (s : ByteBufferImpl) (offset : Nat) (bytes : List UInt8) : Exec ByteBufferImpl :=
  if s.currentWriteBuffer ∈ s.freed then throw .freedSegment
  else if s.singleCapacity < offset + bytes.length then throw .outOfBounds
  else pure { s with
    heap := Function.update s.heap s.currentWriteBuffer
      ((s.heap s.currentWriteBuffer).write offset bytes) }

def appendBuffer (s : ByteBufferImpl) : ByteBufferImpl :=
  { s with
    localWriterIndex := 0
    currentWriteBuffer := s.nextSegment
    nextSegment := s.nextSegment + 1
    buffers := s.buffers ++ [s.nextSegment] }

/-- After the pop `buffers.front()` is read, so a last segment must remain. -/
def popBuffer (s : ByteBufferImpl) : Exec ByteBufferImpl :=
  match s.buffers with
  | front :: next :: rest => pure { s with
      localReaderIndex := 0
      freed := front :: s.freed
      buffers := next :: rest
      currentReadBuffer := next }
  | _ => throw .emptyDeque

def tryRefreshReaderBuffer (s : ByteBufferImpl) : Exec ByteBufferImpl :=
  if s.localReaderIndex ≥ s.singleCapacity then s.popBuffer else pure s

def tryRefreshWriterBuffer (s : ByteBufferImpl) : ByteBufferImpl :=
  if s.localWriterIndex ≥ s.singleCapacity then s.appendBuffer else s

def writeByte (s : ByteBufferImpl) (input : UInt8) : Exec ByteBufferImpl := do
  let s := s.tryRefreshWriterBuffer
  let s ← s.store s.localWriterIndex [input]
  pure { s with
    readableBytes := s.readableBytes + 1
    localWriterIndex := s.localWriterIndex + 1 }

/-- The locals of `WriteBytes` beside the buffer. -/
structure Writing where
  buffer : ByteBufferImpl
  size : Nat
  bytesIndex : Nat

/-- One copy that fills the current segment, and the segment after it. -/
def Writing.fillSegment (input : List UInt8) (w : Writing) (copiedBytes : Nat) : Exec Writing := do
  let s ← w.buffer.store w.buffer.localWriterIndex ((input.drop w.bytesIndex).take copiedBytes)
  pure {
    buffer := { s with readableBytes := s.readableBytes + copiedBytes }.appendBuffer
    size := w.size - copiedBytes
    bytesIndex := w.bytesIndex + copiedBytes }

/-- `while (size > singleCapacity)`. Each round uses up `singleCapacity` bytes,
so the bound on the rounds is only reached where that is zero. -/
def Writing.wholeSegments (input : List UInt8) (w : Writing) : Exec Writing :=
  loop .endless (whileRound (fun w => w.size > w.buffer.singleCapacity)
    fun w => w.fillSegment input w.buffer.singleCapacity) (w.size + 1) w

/-- `if (localWriterIndex + size > singleCapacity)`. -/
def Writing.crossSegments (input : List UInt8) (w : Writing) : Exec Writing :=
  if w.buffer.localWriterIndex + w.size > w.buffer.singleCapacity then do
    let w ← w.fillSegment input (w.buffer.singleCapacity - w.buffer.localWriterIndex)
    w.wholeSegments input
  else pure w

/-- `WriteBytes(const uint8_t* input, size_t size)`. -/
def writeBytes (s : ByteBufferImpl) (input : List UInt8) : Exec ByteBufferImpl := do
  let s := s.tryRefreshWriterBuffer
  let w ← Writing.crossSegments input { buffer := s, size := input.length, bytesIndex := 0 }
  let s ← w.buffer.store w.buffer.localWriterIndex ((input.drop w.bytesIndex).take w.size)
  pure { s with
    localWriterIndex := s.localWriterIndex + w.size
    readableBytes := s.readableBytes + w.size }

/-- `WriteBytesAndDelete`. An array that is taken over replaces the last segment, of
which nothing else is told; its address is the next one. Any other is copied. -/
def writeBytesAndDelete (s : ByteBufferImpl) (input : List UInt8) : Exec ByteBufferImpl :=
  if s.localWriterIndex = 0 ∧ input.length = s.singleCapacity then
    if s.buffers = [] then throw .emptyDeque
    else pure { s with
      heap := Function.update s.heap s.nextSegment ((s.heap s.nextSegment).write 0 input)
      nextSegment := s.nextSegment + 1
      buffers := s.buffers.dropLast ++ [s.nextSegment] }
  else s.writeBytes input

def readByteUnsafe (s : ByteBufferImpl) : Exec (UInt8 × ByteBufferImpl) := do
  let s ← s.tryRefreshReaderBuffer
  let bytes ← s.fetch s.localReaderIndex 1
  pure (bytes.headD 0, { s with
    readableBytes := s.readableBytes - 1
    localReaderIndex := s.localReaderIndex + 1 })

def incompleteByteErrorable (argument : UInt64) : Errorable UInt8 :=
  invalidArgumentErrorable .incompleteByte argument

def readByte (s : ByteBufferImpl) : Exec (Errorable UInt8 × ByteBufferImpl) :=
  if s.readableBytes < 1 then pure (incompleteByteErrorable (.ofNat s.readableBytes), s)
  else do
    let (byte, s) ← s.readByteUnsafe
    pure (successErrorable byte, s)

/-- The locals of `ReadBytes` beside the buffer. `bytesIndex` is a `uint32_t`. -/
structure Reading where
  buffer : ByteBufferImpl
  output : OutputArray
  size : Nat
  bytesIndex : UInt32

/-- One copy that finishes the current segment, and the segment after it. -/
def Reading.drainSegment (r : Reading) (copiedBytes : Nat) : Exec Reading := do
  let bytes ← r.buffer.fetch r.buffer.localReaderIndex copiedBytes
  let output ← r.output.store r.bytesIndex.toNat bytes
  let s ← popBuffer { r.buffer with
    readableBytes := r.buffer.readableBytes - copiedBytes
    localReaderIndex := 0 }
  pure {
    buffer := s
    output := output
    size := r.size - copiedBytes
    bytesIndex := r.bytesIndex + UInt32.ofNat copiedBytes }

/-- `while (size > singleCapacity)`. Each round pops a segment, so there are
never more rounds than segments. -/
def Reading.wholeSegments (r : Reading) : Exec Reading :=
  loop .endless (whileRound (fun r => r.size > r.buffer.singleCapacity)
    fun r => r.drainSegment r.buffer.singleCapacity) (r.buffer.buffers.length + 1) r

/-- `if (localReaderIndex + size > singleCapacity)`. -/
def Reading.crossSegments (r : Reading) : Exec Reading :=
  if r.buffer.localReaderIndex + r.size > r.buffer.singleCapacity then do
    let r ← r.drainSegment (r.buffer.singleCapacity - r.buffer.localReaderIndex)
    r.wholeSegments
  else pure r

def incompleteByteArrayErrorable (argument : UInt64) : Errorable (List UInt8) :=
  invalidArgumentErrorable .incompleteByteArray argument

/-- `ReadBytes(uint8_t* output, size_t size)`. The value is the bytes that the
returned pointer leads to, of which there are none for a null pointer. -/
def readBytes (s : ByteBufferImpl) (output : OutputArray) (size : Nat) :
    Exec (Errorable (List UInt8) × OutputArray × ByteBufferImpl) :=
  if s.readableBytes < size then
    pure (incompleteByteArrayErrorable (.ofNat s.readableBytes), output, s)
  else do
    let s ← s.tryRefreshReaderBuffer
    let r ← Reading.crossSegments { buffer := s, output := output, size := size, bytesIndex := 0 }
    let bytes ← r.buffer.fetch r.buffer.localReaderIndex r.size
    let output ← r.output.store r.bytesIndex.toNat bytes
    pure (successErrorable (output.cells.read 0 size), output, { r.buffer with
      localReaderIndex := r.buffer.localReaderIndex + r.size
      readableBytes := r.buffer.readableBytes - r.size })

/-- `#define MAX_PACKET_SIZE (8 * 1024 * 1024)`. -/
def maxPacketSize : Nat := 8 * 1024 * 1024

/-- `WriteBytes(ByteBuffer* input, size_t size)`, by way of the thread's
`byteBufferWriteBuffer`, of which `scratch` is the contents. The result of the
read is not looked at. Answers the buffer, the scratch array and the input. -/
def writeBytesFrom (s : ByteBufferImpl) (scratch : Block UInt8) (input : ByteBufferImpl) (size : Nat) :
    Exec (ByteBufferImpl × Block UInt8 × ByteBufferImpl) := do
  let (_, output, input) ← input.readBytes { cells := scratch, size := maxPacketSize } size
  if maxPacketSize < size then throw .outOfBounds
  let s ← s.writeBytes (output.cells.read 0 size)
  pure (s, output.cells, input)

/-- `ResetReaderIndex`. -/
def resetReaderIndex (s : ByteBufferImpl) : ByteBufferImpl :=
  { s with
    localReaderIndex := 0
    readableBytes := (s.buffers.length - 1) * s.singleCapacity + s.localWriterIndex }

/-- `ResetWriterIndex`. -/
def resetWriterIndex (s : ByteBufferImpl) : ByteBufferImpl :=
  { s with
    localWriterIndex := 0
    readableBytes := 0 }

/-- The rounds of `while (count > singleCapacity - localReaderIndex)`. -/
def skipRound : ByteBufferImpl × Nat → Exec (Round (ByteBufferImpl × Nat) (ByteBufferImpl × Nat)) :=
  whileRound (fun (s, count) => count > s.singleCapacity - s.localReaderIndex)
    fun (s, count) => do
      let count := count - (s.singleCapacity - s.localReaderIndex)
      let s ← s.popBuffer
      pure (s, count)

def invalidReadSkipRequest (argument : UInt64) : Errorable Nat :=
  invalidArgumentErrorable .invalidReadSkipRequest argument

/-- `SkipReadBytes`. The index is assigned the rest of the count, not advanced by it. -/
def skipReadBytes (s : ByteBufferImpl) (count : Nat) : Exec (Errorable Nat × ByteBufferImpl) :=
  if count > s.readableBytes then pure (invalidReadSkipRequest (.ofNat count), s)
  else do
    let s := { s with readableBytes := s.readableBytes - count }
    let (s, count) ← loop .endless skipRound (s.buffers.length + 1) (s, count)
    let s ← tryRefreshReaderBuffer { s with localReaderIndex := count }
    pure (successErrorable count, s)

/-- The rounds of `while (count > singleCapacity - localWriterIndex)`. The
subtraction from the `size_t` wraps around. -/
def skipWriteRound : ByteBufferImpl × UInt64 → Exec (Round (ByteBufferImpl × UInt64) (ByteBufferImpl × UInt64)) :=
  whileRound (fun (s, count) => count.toNat > s.singleCapacity - s.localWriterIndex)
    fun (s, count) => pure (s.appendBuffer, count - .ofNat s.singleCapacity)

/-- `SkipWriteBytes`. Once the index is zero a round takes a whole segment from the
count, so with a capacity there are fewer rounds than the bound. -/
def skipWriteBytes (s : ByteBufferImpl) (count : UInt64) : Exec (UInt64 × ByteBufferImpl) := do
  let s := { s with readableBytes := s.readableBytes + count.toNat }
  let (s, count) ← loop .endless skipWriteRound (UInt64.size + 2) (s, count)
  pure (count, tryRefreshWriterBuffer { s with localWriterIndex := count.toNat })

end ByteBufferImpl

end ShipNet
