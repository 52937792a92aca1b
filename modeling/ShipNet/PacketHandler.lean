import ShipNet.OrdinalVector
import ShipNet.PacketPipe

/-! `PacketHandler`: the static table of callbacks, `Handle`, `HasCallback`,
`SetPointerCallback`, and the wrapper that `SetPacketCallback` puts around a callback. -/
namespace ShipNet
open Fallible OrdinalVector

/-- A handler, by what tells it apart: its `GetOrdinal()`. -/
structure PacketHandler where
  ordinal : UInt32
  deriving DecidableEq, Repr

def invalidPacketSizeErrorable (argument : UInt64) : Errorable Bool :=
  invalidArgumentErrorable .invalidPacketSize argument

def canNotReadPacketErrorable (argument : UInt64) : Errorable Bool :=
  invalidArgumentErrorable .canNotReadPacket argument

/-- A registered function. It may read the buffer of the packet, and use the
state `γ` of the application behind the handler and the connection. -/
abbrev Callback (γ : Type) : Type :=
  PacketHandler → γ → PacketHolder → ByteBufferImpl → Exec (Errorable Bool × γ × ByteBufferImpl)

/-- A call of a callback: the readable bytes before and after it. -/
structure Invocation where
  handler : PacketHandler
  before : List UInt8
  after : List UInt8

/-- The bytes that the callback has taken. -/
def Invocation.taken (invocation : Invocation) : List UInt8 :=
  invocation.before.take (invocation.before.length - invocation.after.length)

namespace PacketHandler

variable {γ τ : Type}

/-- `callbacks[GetOrdinal()][ordinal]`, where both are in range and one is set. -/
def lookup (callbacks : List (List (Option (Callback γ)))) (handler : PacketHandler) (ordinal : UInt32) :
    Option (Callback γ) :=
  if handler.ordinal.toNat ≥ callbacks.length then none
  else
    let localCallbacks := callbacks.getD handler.ordinal.toNat []
    if ordinal.toNat ≥ localCallbacks.length then none
    else localCallbacks.getD ordinal.toNat none

/-- `Handle`, with the call that it makes. -/
def handle (callbacks : List (List (Option (Callback γ)))) (handler : PacketHandler) (user : γ)
    (packet : PacketHolder) (buffer : ByteBufferImpl) :
    Exec (Errorable Bool × γ × ByteBufferImpl × List Invocation) :=
  match lookup callbacks handler packet.ordinal with
  | some callback => do
    let before := buffer.content
    let (handled, user, buffer) ← callback handler user packet buffer
    pure (handled, user, buffer, [⟨handler, before, buffer.content⟩])
  | none => pure (successErrorable false, user, buffer, [])

/-- `HasCallback(ordinal)`. The size of the outer table is compared the other way
round than in `Handle`, and its `operator[]` does not check the index. -/
def hasCallback (callbacks : List (List (Option (Callback γ)))) (handler : PacketHandler) (ordinal : UInt32) :
    Exec Bool :=
  if callbacks.length ≥ handler.ordinal.toNat then pure false
  else
    match callbacks[handler.ordinal.toNat]? with
    | none => throw .outOfBounds
    | some localCallbacks =>
      pure (ordinal.toNat < localCallbacks.length && (localCallbacks.getD ordinal.toNat none).isSome)

/-- `SetPointerCallback(handler_ordinal, packet_ordinal, callback)`. An index of the
outer table is not checked by `operator[]`. -/
def setPointerCallback (callbacks : List (List (Option (Callback γ)))) (handlerOrdinal packetOrdinal : UInt32)
    (callback : Option (Callback γ)) : Exec (List (List (Option (Callback γ)))) :=
  let callbacks :=
    if callbacks.length ≥ handlerOrdinal.toNat then resize callbacks (handlerOrdinal + 8).toNat else callbacks
  match callbacks[handlerOrdinal.toNat]? with
  | none => throw .outOfBounds
  | some localCallbacks => do
    let localCallbacks ← resizeVectorAndSet localCallbacks packetOrdinal callback
    pure (callbacks.set handlerOrdinal.toNat localCallbacks)

/-- The function that `SetPacketCallback(handlerClass, packetClass, callback)`
registers. The size before is kept in a `uint32_t`, and compared in `size_t`. -/
def setPacketCallback (instantiate : PacketHolder → ByteBufferImpl → Exec (Errorable τ × ByteBufferImpl))
    (callback : PacketHandler → γ → τ → Exec (Errorable Bool × γ)) : Callback γ :=
  fun handler user holder buffer => do
    let oldReadableBytes : UInt32 := .ofNat buffer.readableBytes
    let (pkt, buffer) ← instantiate holder buffer
    if !pkt.isSuccess then
      pure (canNotReadPacketErrorable holder.expectedSize.toUInt64, user, buffer)
    else if oldReadableBytes.toUInt64 - .ofNat buffer.readableBytes ≠ holder.expectedSize.toUInt64 then
      pure (invalidPacketSizeErrorable holder.expectedSize.toUInt64, user, buffer)
    else do
      let (handled, user) ← callback handler user pkt.value
      pure (handled, user, buffer)

end PacketHandler

end ShipNet
