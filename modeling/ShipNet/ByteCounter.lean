import ShipNet.Codec

/-! `ByteCounter`, the buffer that only counts what is written, and the write
operations that it shares with `ByteBufferImpl`. -/
namespace ShipNet
open Fallible

namespace ByteBuffer

def byteSize : Nat := 1
def shortSize : Nat := 2
def mediumSize : Nat := 3
def intSize : Nat := 4
def longSize : Nat := 8
def floatSize : Nat := intSize
def doubleSize : Nat := longSize
def booleanSize : Nat := byteSize
def angleSize : Nat := byteSize
def uuidSize : Nat := longSize * 2

def varIntBytes (input : UInt32) : UInt32 :=
  if input &&& ((0xFFFFFFFF : UInt32) <<< 7) = 0 then 1
  else if input &&& ((0xFFFFFFFF : UInt32) <<< 14) = 0 then 2
  else if input &&& ((0xFFFFFFFF : UInt32) <<< 21) = 0 then 3
  else if input &&& ((0xFFFFFFFF : UInt32) <<< 28) = 0 then 4
  else 5

def varLongBytes (input : UInt64) : UInt32 :=
  if input &&& ((0xFFFFFFFFFFFFFFFF : UInt64) <<< 7) = 0 then 1
  else if input &&& ((0xFFFFFFFFFFFFFFFF : UInt64) <<< 14) = 0 then 2
  else if input &&& ((0xFFFFFFFFFFFFFFFF : UInt64) <<< 21) = 0 then 3
  else if input &&& ((0xFFFFFFFFFFFFFFFF : UInt64) <<< 28) = 0 then 4
  else if input &&& ((0xFFFFFFFFFFFFFFFF : UInt64) <<< 35) = 0 then 5
  else if input &&& ((0xFFFFFFFFFFFFFFFF : UInt64) <<< 42) = 0 then 6
  else if input &&& ((0xFFFFFFFFFFFFFFFF : UInt64) <<< 49) = 0 then 7
  else if input &&& ((0xFFFFFFFFFFFFFFFF : UInt64) <<< 56) = 0 then 8
  else if input &&& ((0xFFFFFFFFFFFFFFFF : UInt64) <<< 63) = 0 then 9
  else 10

def stringBytes (string : List UInt8) : UInt32 :=
  varIntBytes (.ofNat string.length) + .ofNat string.length

def arrayBytes (arrayLength : UInt32) : UInt32 :=
  varIntBytes arrayLength + arrayLength

end ByteBuffer
open ByteBuffer

structure ByteCounter where
  writerIndex : Nat := 0

namespace ByteCounter

def writeByte (c : ByteCounter) (_input : UInt8) : ByteCounter := ⟨c.writerIndex + byteSize⟩

def writeBoolean (c : ByteCounter) (_input : Bool) : ByteCounter := ⟨c.writerIndex + booleanSize⟩

def writeShort (c : ByteCounter) (_input : UInt16) : ByteCounter := ⟨c.writerIndex + shortSize⟩

def writeMedium (c : ByteCounter) (_input : UInt32) : ByteCounter := ⟨c.writerIndex + mediumSize⟩

def writeInt (c : ByteCounter) (_input : UInt32) : ByteCounter := ⟨c.writerIndex + intSize⟩

def writeVarInt (c : ByteCounter) (input : UInt32) : ByteCounter :=
  ⟨c.writerIndex + (varIntBytes input).toNat⟩

def writeLong (c : ByteCounter) (_input : UInt64) : ByteCounter := ⟨c.writerIndex + longSize⟩

def writeVarLong (c : ByteCounter) (input : UInt64) : ByteCounter :=
  ⟨c.writerIndex + (varLongBytes input).toNat⟩

def writeUUID (c : ByteCounter) (_input : UUID) : ByteCounter := ⟨c.writerIndex + uuidSize⟩

def writeUUIDIntArray (c : ByteCounter) (_input : UUID) : ByteCounter := ⟨c.writerIndex + uuidSize⟩

def writeDouble (c : ByteCounter) (_input : Float) : ByteCounter := ⟨c.writerIndex + doubleSize⟩

def writeFloat (c : ByteCounter) (_input : Float32) : ByteCounter := ⟨c.writerIndex + floatSize⟩

def writeString (c : ByteCounter) (input : List UInt8) : ByteCounter :=
  ⟨c.writerIndex + (varIntBytes (.ofNat input.length)).toNat + input.length⟩

def writeAngle (c : ByteCounter) (_input : Float32) : ByteCounter := ⟨c.writerIndex + angleSize⟩

/-- `WriteBytes(const uint8_t* input, size_t size)`. -/
def writeBytes (c : ByteCounter) (input : List UInt8) : ByteCounter := ⟨c.writerIndex + input.length⟩

/-- `WriteBytesAndDelete`: the array is deleted. -/
def writeBytesAndDelete (c : ByteCounter) (_input : List UInt8) : ByteCounter := c

/-- `WriteBytes(ByteBuffer* buffer, size_t size)`. The buffer is not read. -/
def writeBytesFrom (c : ByteCounter) (_buffer : ByteBufferImpl) (size : Nat) : ByteCounter :=
  ⟨c.writerIndex + size⟩

/-- Inherited from `ByteBuffer`. -/
def writeByteArray (c : ByteCounter) (input : ByteBufferImpl) : ByteCounter :=
  (c.writeVarInt (.ofNat input.readableBytes)).writeBytesFrom input input.readableBytes

end ByteCounter

/-- A call of one of the write operations. -/
inductive WriteOperation where
  | boolean (input : Bool)
  | byte (input : UInt8)
  | short (input : UInt16)
  | medium (input : UInt32)
  | int (input : UInt32)
  | varInt (input : UInt32)
  | long (input : UInt64)
  | varLong (input : UInt64)
  | uuid (input : UUID)
  | uuidIntArray (input : UUID)
  | double (input : Float)
  | float (input : Float32)
  | angle (input : Float32)
  | string (input : List UInt8)
  | bytes (input : List UInt8)
  | bytesFrom (input : ByteBufferImpl) (size : Nat)
  | byteArray (input : ByteBufferImpl)

namespace WriteOperation

/-- The call on a buffer. `scratch` is the thread's `byteBufferWriteBuffer`. -/
def perform (s : ByteBufferImpl) (scratch : Block UInt8) :
    WriteOperation → Exec (ByteBufferImpl × Block UInt8)
  | boolean input => return (← s.writeBoolean input, scratch)
  | byte input => return (← s.writeByte input, scratch)
  | short input => return (← s.writeShort input, scratch)
  | medium input => return (← s.writeMedium input, scratch)
  | int input => return (← s.writeInt input, scratch)
  | varInt input => return (← s.writeVarInt input, scratch)
  | long input => return (← s.writeLong input, scratch)
  | varLong input => return (← s.writeVarLong input, scratch)
  | uuid input => return (← s.writeUUID input, scratch)
  | uuidIntArray input => return (← s.writeUUIDIntArray input, scratch)
  | double input => return (← s.writeDouble input, scratch)
  | float input => return (← s.writeFloat input, scratch)
  | angle input => return (← s.writeAngle input, scratch)
  | string input => return (← s.writeString input, scratch)
  | bytes input => return (← s.writeBytes input, scratch)
  | bytesFrom input size => do
    let (s, scratch, _) ← s.writeBytesFrom scratch input size
    pure (s, scratch)
  | byteArray input => do
    let (s, scratch, _) ← s.writeByteArray scratch input
    pure (s, scratch)

/-- The call on a counter. -/
def count (c : ByteCounter) : WriteOperation → ByteCounter
  | boolean input => c.writeBoolean input
  | byte input => c.writeByte input
  | short input => c.writeShort input
  | medium input => c.writeMedium input
  | int input => c.writeInt input
  | varInt input => c.writeVarInt input
  | long input => c.writeLong input
  | varLong input => c.writeVarLong input
  | uuid input => c.writeUUID input
  | uuidIntArray input => c.writeUUIDIntArray input
  | double input => c.writeDouble input
  | float input => c.writeFloat input
  | angle input => c.writeAngle input
  | string input => c.writeString input
  | bytes input => c.writeBytes input
  | bytesFrom input size => c.writeBytesFrom input size
  | byteArray input => c.writeByteArray input

def performAll (s : ByteBufferImpl) (scratch : Block UInt8) :
    List WriteOperation → Exec (ByteBufferImpl × Block UInt8)
  | [] => pure (s, scratch)
  | first :: later => do
    let (s, scratch) ← first.perform s scratch
    performAll s scratch later

def countAll (c : ByteCounter) (operations : List WriteOperation) : ByteCounter :=
  operations.foldl count c

end WriteOperation

/-- A `Serializable` by the calls that its `Write` makes for a version. -/
structure Serializable (Version : Type) where
  write : Version → List WriteOperation

/-- `Size`: the count of a fresh counter, returned as `uint32_t`. -/
def Serializable.size {Version : Type} (message : Serializable Version) (version : Version) : UInt32 :=
  .ofNat (WriteOperation.countAll {} (message.write version)).writerIndex

end ShipNet
