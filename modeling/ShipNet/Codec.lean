import ShipNet.ByteBuffer

/-! The typed reads and writes of `ByteBuffer`, as `ByteBufferImpl` inherits
them. They reach the segments through `WriteByte`, `ReadByteUnsafe` and the bulk
operations only. -/
namespace ShipNet
open Fallible

structure UUID where
  mostSignificant : UInt64
  leastSignificant : UInt64
  deriving DecidableEq, Repr, Inhabited

namespace ByteBufferImpl

/-- The conversion of an integer argument to `uint8_t`. -/
def lowByte {width : Nat} (input : BitVec width) : UInt8 := .ofBitVec (input.setWidth 8)

/-- `WriteByte(input >> 8 * (count - 1))` down to `WriteByte(input >> 0)`. -/
def writeShifted {width : Nat} (s : ByteBufferImpl) (input : BitVec width) : Nat → Exec ByteBufferImpl
  | 0 => pure s
  | count + 1 => do
    let s ← s.writeByte (lowByte (input >>> (8 * count)))
    writeShifted s input count

/-- The emitting loop of `WriteVarInt` and `WriteVarLong`. -/
def writeVariable {width : Nat} (s : ByteBufferImpl) (input : BitVec width) : Exec ByteBufferImpl :=
  if _small : input &&& ~~~(.ofNat width 0x7F) = 0 then s.writeByte (lowByte input)
  else do
    let s ← s.writeByte (lowByte ((input &&& BitVec.ofNat width 0x7F) ||| BitVec.ofNat width 0x80))
    writeVariable s (input >>> 7)
termination_by input.toNat
decreasing_by
  have nonzero : input.toNat ≠ 0 := by
    intro zero
    have isZero : input = 0 := BitVec.eq_of_toNat_eq (by simpa using zero)
    simp [isZero] at _small
  simp only [BitVec.toNat_ushiftRight, Nat.shiftRight_eq_div_pow]
  omega

def writeBoolean (s : ByteBufferImpl) (input : Bool) : Exec ByteBufferImpl :=
  s.writeByte (if input then 1 else 0)

def writeShort (s : ByteBufferImpl) (input : UInt16) : Exec ByteBufferImpl :=
  s.writeShifted input.toBitVec 2

def writeMedium (s : ByteBufferImpl) (input : UInt32) : Exec ByteBufferImpl :=
  s.writeShifted input.toBitVec 3

def writeInt (s : ByteBufferImpl) (input : UInt32) : Exec ByteBufferImpl :=
  s.writeShifted input.toBitVec 4

def writeVarInt (s : ByteBufferImpl) (input : UInt32) : Exec ByteBufferImpl :=
  s.writeVariable input.toBitVec

def writeLong (s : ByteBufferImpl) (input : UInt64) : Exec ByteBufferImpl :=
  s.writeShifted input.toBitVec 8

def writeVarLong (s : ByteBufferImpl) (input : UInt64) : Exec ByteBufferImpl :=
  s.writeVariable input.toBitVec

def writeUUID (s : ByteBufferImpl) (input : UUID) : Exec ByteBufferImpl := do
  let s ← s.writeLong input.mostSignificant
  s.writeLong input.leastSignificant

def writeUUIDIntArray (s : ByteBufferImpl) (input : UUID) : Exec ByteBufferImpl := do
  let s ← s.writeInt (input.mostSignificant >>> 32).toUInt32
  let s ← s.writeInt input.mostSignificant.toUInt32
  let s ← s.writeInt (input.leastSignificant >>> 32).toUInt32
  s.writeInt input.leastSignificant.toUInt32

/-- `WriteDouble`. A NaN has one payload here. -/
def writeDouble (s : ByteBufferImpl) (input : Float) : Exec ByteBufferImpl :=
  s.writeLong input.toBits

/-- `WriteFloat`. A NaN has one payload here. -/
def writeFloat (s : ByteBufferImpl) (input : Float32) : Exec ByteBufferImpl :=
  s.writeInt input.toBits

/-- `WriteString`: the length as `VarInt`, then the characters. -/
def writeString (s : ByteBufferImpl) (input : List UInt8) : Exec ByteBufferImpl := do
  let s ← s.writeVarInt (.ofNat input.length)
  s.writeBytes input

/-- `WriteByteArray`. Answers as `WriteBytes(ByteBuffer*, size_t)` does. -/
def writeByteArray (s : ByteBufferImpl) (scratch : Block UInt8) (input : ByteBufferImpl) :
    Exec (ByteBufferImpl × Block UInt8 × ByteBufferImpl) := do
  let s ← s.writeVarInt (.ofNat input.readableBytes)
  s.writeBytesFrom scratch input input.readableBytes

/-- `WriteAngle`. Outside of a byte the conversion is undefined; here it gives the nearest one. -/
def writeAngle (s : ByteBufferImpl) (input : Float32) : Exec ByteBufferImpl :=
  s.writeByte (input * (256.0 / 360.0)).toUInt8

/-- `ReadByteUnsafe() << 8 * (count - 1) | ... | ReadByteUnsafe() << 0`, the
operands evaluated from left to right, over the bits collected before. -/
def readShifted {width : Nat} (s : ByteBufferImpl) (value : BitVec width) :
    Nat → Exec (BitVec width × ByteBufferImpl)
  | 0 => pure (value, s)
  | count + 1 => do
    let (byte, s) ← s.readByteUnsafe
    readShifted s (value ||| byte.toBitVec.setWidth width <<< (8 * count)) count

/-- A read of `count` bytes most significant first, refused as `incomplete` where
fewer are readable. -/
def readFixed {T : Type} (s : ByteBufferImpl) (count : Nat) (incomplete : UInt64 → Errorable T)
    {width : Nat} (convert : BitVec width → T) : Exec (Errorable T × ByteBufferImpl) :=
  if s.readableBytes < count then pure (incomplete (.ofNat s.readableBytes), s)
  else do
    let (value, s) ← s.readShifted 0 count
    pure (successErrorable (convert value), s)

/-- How the loop of `ReadVarInt` and `ReadVarLong` was left. -/
inductive VariableEnd (width : Nat) where
  | decoded (value : BitVec width)
  | incomplete
  | invalid (value : BitVec width)

/-- `for (byteIndex = 0; byteIndex < limit; ++byteIndex)` of `ReadVarInt` and
`ReadVarLong`, from the round in which `rounds` are left. -/
def readVariable {width : Nat} (s : ByteBufferImpl) (byteIndex : Nat) (decoded : BitVec width) :
    (rounds : Nat) → Exec (VariableEnd width × ByteBufferImpl)
  | 0 => pure (.invalid decoded, s)
  | rounds + 1 =>
    if s.readableBytes < 1 then pure (.incomplete, s)
    else do
      let (byte, s) ← s.readByteUnsafe
      let decoded := decoded ||| (byte &&& 0x7F).toBitVec.setWidth width <<< (byteIndex * 7)
      if byte &&& 0x80 = 0 then pure (.decoded decoded, s)
      else readVariable s (byteIndex + 1) decoded rounds

def incompleteBooleanErrorable (argument : UInt64) : Errorable Bool :=
  invalidArgumentErrorable .incompleteBoolean argument

def incompleteShortErrorable (argument : UInt64) : Errorable UInt16 :=
  invalidArgumentErrorable .incompleteShort argument

def incompleteMediumErrorable (argument : UInt64) : Errorable UInt32 :=
  invalidArgumentErrorable .incompleteMedium argument

def incompleteIntErrorable (argument : UInt64) : Errorable UInt32 :=
  invalidArgumentErrorable .incompleteInt argument

def incompleteLongErrorable (argument : UInt64) : Errorable UInt64 :=
  invalidArgumentErrorable .incompleteLong argument

def incompleteVarIntErrorable (argument : UInt64) : Errorable UInt32 :=
  invalidArgumentErrorable .incompleteVarInt argument

def invalidVarIntErrorable (argument : UInt64) : Errorable UInt32 :=
  invalidArgumentErrorable .invalidVarInt argument

def incompleteVarLongErrorable (argument : UInt64) : Errorable UInt64 :=
  invalidArgumentErrorable .incompleteVarLong argument

def invalidVarLongErrorable (argument : UInt64) : Errorable UInt64 :=
  invalidArgumentErrorable .invalidVarLong argument

def invalidUUIDErrorable (argument : UInt64) : Errorable UUID :=
  invalidArgumentErrorable .invalidUUID argument

def readBoolean (s : ByteBufferImpl) : Exec (Errorable Bool × ByteBufferImpl) :=
  if s.readableBytes < 1 then pure (incompleteBooleanErrorable (.ofNat s.readableBytes), s)
  else do
    let (byte, s) ← s.readByteUnsafe
    pure (successErrorable (byte != 0), s)

def readShort (s : ByteBufferImpl) : Exec (Errorable UInt16 × ByteBufferImpl) :=
  s.readFixed 2 incompleteShortErrorable UInt16.ofBitVec

def readMedium (s : ByteBufferImpl) : Exec (Errorable UInt32 × ByteBufferImpl) :=
  s.readFixed 3 incompleteMediumErrorable UInt32.ofBitVec

def readInt (s : ByteBufferImpl) : Exec (Errorable UInt32 × ByteBufferImpl) :=
  s.readFixed 4 incompleteIntErrorable UInt32.ofBitVec

def readLong (s : ByteBufferImpl) : Exec (Errorable UInt64 × ByteBufferImpl) :=
  s.readFixed 8 incompleteLongErrorable UInt64.ofBitVec

/-- `ReadVarInt`. The shifted `int` wraps modulo 2^32. -/
def readVarInt (s : ByteBufferImpl) : Exec (Errorable UInt32 × ByteBufferImpl) := do
  let (left, s) ← s.readVariable 0 (0 : BitVec 32) 5
  match left with
  | .decoded value => pure (successErrorable (.ofBitVec value), s)
  | .incomplete => pure (incompleteVarIntErrorable (.ofNat s.readableBytes), s)
  | .invalid value => pure (invalidVarIntErrorable (.ofNat value.toNat), s)

def readVarLong (s : ByteBufferImpl) : Exec (Errorable UInt64 × ByteBufferImpl) := do
  let (left, s) ← s.readVariable 0 (0 : BitVec 64) 10
  match left with
  | .decoded value => pure (successErrorable (.ofBitVec value), s)
  | .incomplete => pure (incompleteVarLongErrorable (.ofNat s.readableBytes), s)
  | .invalid value => pure (invalidVarLongErrorable (.ofNat value.toNat), s)

def readUUID (s : ByteBufferImpl) : Exec (Errorable UUID × ByteBufferImpl) := do
  let (mostSignificant, s) ← s.readLong
  if !mostSignificant.isSuccess then pure (invalidUUIDErrorable (.ofNat s.readableBytes), s)
  else do
    let (leastSignificant, s) ← s.readLong
    if !leastSignificant.isSuccess then pure (invalidUUIDErrorable (.ofNat s.readableBytes), s)
    else pure (successErrorable ⟨mostSignificant.value, leastSignificant.value⟩, s)

def readUUIDIntArray (s : ByteBufferImpl) : Exec (Errorable UUID × ByteBufferImpl) := do
  let (mostSignificantLeft, s) ← s.readInt
  if !mostSignificantLeft.isSuccess then pure (invalidUUIDErrorable (.ofNat s.readableBytes), s)
  else do
    let (mostSignificantRight, s) ← s.readInt
    if !mostSignificantRight.isSuccess then pure (invalidUUIDErrorable (.ofNat s.readableBytes), s)
    else do
      let (leastSignificantLeft, s) ← s.readInt
      if !leastSignificantLeft.isSuccess then pure (invalidUUIDErrorable (.ofNat s.readableBytes), s)
      else do
        let (leastSignificantRight, s) ← s.readInt
        if !leastSignificantRight.isSuccess then pure (invalidUUIDErrorable (.ofNat s.readableBytes), s)
        else pure (successErrorable
          ⟨mostSignificantLeft.value.toUInt64 ||| (mostSignificantRight.value.toUInt64 &&& 0xFFFFFFFF),
            leastSignificantLeft.value.toUInt64 <<< 32 |||
              (leastSignificantRight.value.toUInt64 &&& 0xFFFFFFFF)⟩, s)

/-- `ReadBytes(size_t size)`: a read into `new uint8_t[size]`, which holds `fresh`. -/
def readNewBytes (s : ByteBufferImpl) (fresh : Block UInt8) (size : Nat) :
    Exec (Errorable (List UInt8) × OutputArray × ByteBufferImpl) :=
  s.readBytes { cells := fresh, size := size } size

/-- `std::string(const char*)` of an array of these bytes. It goes as far as the first
zero byte, and past the end of an array that has none. -/
def stringOfPointer (bytes : List UInt8) : Exec (List UInt8) :=
  if 0 ∈ bytes then pure (bytes.takeWhile (· != 0)) else throw .outOfBounds

def invalidStringSizeErrorable (argument : UInt64) : Errorable (List UInt8) :=
  invalidArgumentErrorable .invalidStringSize argument

def invalidByteArraySizeErrorable (argument : UInt64) : Errorable (Option ByteBufferImpl) :=
  invalidArgumentErrorable .invalidByteArraySize argument

/-- `ReadString(uint32_t max_size)`. -/
def readString (s : ByteBufferImpl) (fresh : Block UInt8) (maxSize : UInt32) :
    Exec (Errorable (List UInt8) × ByteBufferImpl) := do
  let (length, s) ← s.readVarInt
  if !length.isSuccess then pure (invalidStringSizeErrorable (-1), s)
  else if length.value > maxSize then pure (invalidStringSizeErrorable length.value.toUInt64, s)
  else do
    let (bytes, _, s) ← s.readNewBytes fresh length.value.toNat
    if !bytes.isSuccess then pure (invalidStringSizeErrorable length.value.toUInt64, s)
    else do
      let string ← stringOfPointer bytes.value
      pure (successErrorable string, s)

/-- The part of `ReadByteArray` behind the length. A pointer to a buffer is an `Option`
of the buffer; `heap` is what the segments it allocates later hold. -/
def readArrayOf (s : ByteBufferImpl) (fresh : Block UInt8) (heap : Nat → Block UInt8) (length : UInt32) :
    Exec (Errorable (Option ByteBufferImpl) × ByteBufferImpl) := do
  let (bytes, array, s) ← s.readNewBytes fresh length.toNat
  if !bytes.isSuccess then pure (invalidByteArraySizeErrorable length.toUInt64, s)
  else pure (successErrorable (some (ofArray heap array.cells length.toNat)), s)

/-- `ReadByteArray()`. -/
def readByteArray (s : ByteBufferImpl) (fresh : Block UInt8) (heap : Nat → Block UInt8) :
    Exec (Errorable (Option ByteBufferImpl) × ByteBufferImpl) := do
  let (length, s) ← s.readVarInt
  if !length.isSuccess then pure (invalidByteArraySizeErrorable (-1), s)
  else s.readArrayOf fresh heap length.value

/-- `ReadByteArray(uint32_t max_size)`. -/
def readByteArrayWithin (s : ByteBufferImpl) (fresh : Block UInt8) (heap : Nat → Block UInt8) (maxSize : UInt32) :
    Exec (Errorable (Option ByteBufferImpl) × ByteBufferImpl) := do
  let (length, s) ← s.readVarInt
  if !length.isSuccess then pure (invalidByteArraySizeErrorable (-1), s)
  else if length.value > maxSize then pure (invalidByteArraySizeErrorable length.value.toUInt64, s)
  else s.readArrayOf fresh heap length.value

end ByteBufferImpl

end ShipNet
