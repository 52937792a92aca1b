import ShipNet.ByteBuffer

/-! `UnixReadWriteCloser`, with the answers of the operating system as inputs.
`Write` waits for the system between two rounds of its loops, so it is the
state it waits in and the way it goes on from each answer. -/
namespace ShipNet

/-- `ECONNRESET` and `EAGAIN`. -/
def econnreset : Nat := 104
def eagain : Nat := 11

structure UnixReadWriteCloser where
  closed : Bool := false
  deriving DecidableEq, Repr

namespace UnixReadWriteCloser

/-- `Close`, that is `unixClose`. The descriptor is closed once. -/
def close (closer : UnixReadWriteCloser) : UnixReadWriteCloser :=
  if !closer.closed then { closer with closed := true } else closer

/-- What `write(fd, p, k)` answers. -/
inductive WriteResult where
  | accepted (bytesWritten : Nat)
  | failed (errno : Nat)

/-- Where a call of `Write` stands. -/
inductive Control where
  /-- It waits in `while (readable >= singleCapacity - readerIndex)`. -/
  | segments
  /-- It waits in `while (readable != 0)`. -/
  | rest
  | returned (result : Errorable Nat)

/-- A call of `Write`: its object, its argument and its locals. -/
structure WriteCall where
  closer : UnixReadWriteCloser
  buffer : ByteBufferImpl
  totalBytesWritten : Nat
  control : Control

namespace WriteCall

/-- The test of the second loop. -/
def enterRest (call : WriteCall) : WriteCall :=
  if call.buffer.readableBytes ≠ 0 then { call with control := .rest }
  else { call with control := .returned (successErrorable call.totalBytesWritten) }

/-- The test of the first loop. -/
def enterSegments (call : WriteCall) : WriteCall :=
  if call.buffer.readableBytes ≥ call.buffer.singleCapacity - call.buffer.localReaderIndex then
    { call with control := .segments }
  else call.enterRest

/-- The size `k` of the `write` that is waited for. -/
def requested (call : WriteCall) : Nat :=
  match call.control with
  | .segments => call.buffer.singleCapacity - call.buffer.localReaderIndex
  | .rest => call.buffer.readableBytes
  | .returned _ => 0

/-- The way on from an answer of `write`. -/
def resume (call : WriteCall) : WriteResult → Exec WriteCall
  | .failed errno =>
    if errno = econnreset then
      pure { call with
        closer := call.closer.close
        control := .returned (successErrorable call.totalBytesWritten) }
    else pure { call with control := .returned (errnoErrorable 0 errno) }
  | .accepted bytesWritten => do
    let (_, buffer) ← call.buffer.skipReadBytes bytesWritten
    let call := { call with
      buffer := buffer
      totalBytesWritten := call.totalBytesWritten + bytesWritten }
    match call.control with
    | .segments => pure call.enterSegments
    | .rest => pure call.enterRest
    | .returned _ => pure call

end WriteCall

/-- `Write(ByteBuffer* buffer)`, up to its first `write` or its return. -/
def write (closer : UnixReadWriteCloser) (buffer : ByteBufferImpl) : WriteCall :=
  let call : WriteCall :=
    { closer := closer, buffer := buffer, totalBytesWritten := 0, control := .returned (successErrorable 0) }
  if closer.closed then call else call.enterSegments

/-- What `read(fd, p, k)` answers: the bytes put at `p`, none at the end of the
file, or the `errno` it sets. -/
inductive ReadResult where
  | received (page : List UInt8)
  | failed (errno : Nat)

/-- A call of `Read`: its result, the bytes at the front of its argument, and
`errno` and the socket after it. -/
structure ReadCall (σ : Type) where
  result : Errorable Nat
  page : List UInt8
  errno : Nat
  socket : σ

/-- `Read(uint8_t* buffer, size_t buffer_size)`, where `system` answers `read`. -/
def read {σ : Type} (system : σ → ReadResult × σ) (closer : UnixReadWriteCloser) (errno : Nat) (socket : σ) :
    ReadCall σ :=
  if !closer.closed then
    let (answer, socket) := system socket
    match answer with
    | .failed errno => { result := errnoErrorable 0 errno, page := [], errno := errno, socket := socket }
    | .received page =>
      { result := successErrorable page.length, page := page, errno := errno, socket := socket }
  else { result := successErrorable 0, page := [], errno := errno, socket := socket }

end UnixReadWriteCloser

end ShipNet
