import ShipNet.CodecProofs

/-! Whole messages of typed values: written one after another and read back by
the matching operations, across any segments and before any other bytes. -/
namespace ShipNet.ByteBufferImpl
open Fallible

/-- The kinds of values with an operation for each direction. -/
inductive Kind
  | boolean
  | byte
  | short
  | medium
  | int
  | varInt
  | long
  | varLong
  | uuid
  deriving DecidableEq, Repr

/-- The C++ type of the values of a kind. -/
abbrev Kind.Carrier : Kind → Type
  | boolean => Bool
  | byte => UInt8
  | short => UInt16
  | medium | int | varInt => UInt32
  | long | varLong => UInt64
  | uuid => UUID

/-- A medium leaves the top byte of its `uint32_t` unused. -/
def Kind.InRange : (kind : Kind) → kind.Carrier → Prop
  | medium, value => value.toNat < 2 ^ 24
  | boolean, _ | byte, _ | short, _ | int, _ | varInt, _ | long, _ | varLong, _ | uuid, _ => True

structure Value where
  kind : Kind
  value : kind.Carrier
  inRange : kind.InRange value

def Kind.write (s : ByteBufferImpl) : (kind : Kind) → kind.Carrier → Exec ByteBufferImpl
  | boolean, value => s.writeBoolean value
  | byte, value => s.writeByte value
  | short, value => s.writeShort value
  | medium, value => s.writeMedium value
  | int, value => s.writeInt value
  | varInt, value => s.writeVarInt value
  | long, value => s.writeLong value
  | varLong, value => s.writeVarLong value
  | uuid, value => s.writeUUID value

def Kind.read (s : ByteBufferImpl) : (kind : Kind) → Exec (Errorable kind.Carrier × ByteBufferImpl)
  | boolean => s.readBoolean
  | byte => s.readByte
  | short => s.readShort
  | medium => s.readMedium
  | int => s.readInt
  | varInt => s.readVarInt
  | long => s.readLong
  | varLong => s.readVarLong
  | uuid => s.readUUID

def writeValues (s : ByteBufferImpl) : List Value → Exec ByteBufferImpl
  | [] => pure s
  | first :: later => do
    let s ← first.kind.write s first.value
    writeValues s later

/-- Reads of these kinds, with the answer of each. -/
def readValues (s : ByteBufferImpl) :
    List Kind → Exec (List ((kind : Kind) × Errorable kind.Carrier) × ByteBufferImpl)
  | [] => pure ([], s)
  | kind :: later => do
    let (result, s) ← kind.read s
    let (results, s) ← readValues s later
    pure (⟨kind, result⟩ :: results, s)

/-- The bytes that stand for a value. -/
def Kind.encode : (kind : Kind) → kind.Carrier → List UInt8
  | boolean, value => [if value then 1 else 0]
  | byte, value => [value]
  | short, value => BigEndian.encode value.toNat 2
  | medium, value => BigEndian.encode value.toNat 3
  | int, value => BigEndian.encode value.toNat 4
  | varInt, value | varLong, value => Base128.encode value.toNat
  | long, value => BigEndian.encode value.toNat 8
  | uuid, value =>
    BigEndian.encode value.mostSignificant.toNat 8 ++ BigEndian.encode value.leastSignificant.toNat 8

variable {s : ByteBufferImpl} {cap : Nat} {bytes rest : List UInt8}

theorem writeUUID_represents (held : Represents cap bytes s) (input : UUID) :
    Returns (s.writeUUID input) (Represents cap (bytes ++ Kind.uuid.encode input)) := by
  refine (writeShifted_represents held input.mostSignificant.toBitVec 8).bind fun after first => ?_
  rw [Kind.encode, ← List.append_assoc]
  exact writeShifted_represents first input.leastSignificant.toBitVec 8

theorem write_represents (held : Represents cap bytes s) (kind : Kind) (value : kind.Carrier) :
    Returns (kind.write s value) (Represents cap (bytes ++ kind.encode value)) := by
  cases kind with
  | boolean => exact writeByte_represents held _
  | byte => exact writeByte_represents held _
  | short => exact writeShifted_represents held value.toBitVec 2
  | medium => exact writeShifted_represents held value.toBitVec 3
  | int => exact writeShifted_represents held value.toBitVec 4
  | varInt => exact writeVarInt_represents held value
  | long => exact writeShifted_represents held value.toBitVec 8
  | varLong => exact writeVarLong_represents held value
  | uuid => exact writeUUID_represents held value

/-- `ReadUUID` takes sixteen bytes. -/
theorem readUUID_represents {high low : List UInt8} (held : Represents cap (high ++ low ++ rest) s)
    (highLength : high.length = 8) (lowLength : low.length = 8) :
    Returns s.readUUID fun out =>
      out.1 = successErrorable ⟨.ofNat (BigEndian.decode 0 high), .ofNat (BigEndian.decode 0 low)⟩ ∧
        Represents cap rest out.2 := by
  rw [List.append_assoc] at held
  refine (readFixed_represents held highLength (by decide)).bind ?_
  rintro ⟨result, after⟩ ⟨rfl, remaining⟩
  simp only [success_isSuccess, Bool.not_true, Bool.false_eq_true, if_false]
  refine (readFixed_represents remaining lowLength (by decide)).bind ?_
  rintro ⟨result, after⟩ ⟨rfl, remaining⟩
  exact (returns_ok _ _).mpr ⟨rfl, remaining⟩

/-- A fixed-width read of the bytes of a number answers the number. -/
private theorem readFixed_encoded {T : Type} {width count number : Nat} {convert : BitVec width → T}
    {incomplete : UInt64 → Errorable T} (held : Represents cap (BigEndian.encode number count ++ rest) s)
    (fits : number < 256 ^ count) (room : 256 ^ count ≤ 2 ^ width) :
    Returns (s.readFixed count incomplete convert) fun out =>
      out.1 = successErrorable (convert (BitVec.ofNat width number)) ∧ Represents cap rest out.2 := by
  have read : Returns (s.readFixed count incomplete convert) _ :=
    readFixed_represents held (BigEndian.length_encode number count) room
  rwa [BigEndian.decode_encode, Nat.mod_eq_of_lt fits] at read

/-- Each kind reads back the bytes it writes, and no more. -/
theorem read_represents (kind : Kind) (value : kind.Carrier) (inRange : kind.InRange value)
    (held : Represents cap (kind.encode value ++ rest) s) :
    Returns (kind.read s) fun out => out.1 = successErrorable value ∧ Represents cap rest out.2 := by
  cases kind with
  | boolean =>
    have readable : ¬ s.readableBytes < 1 := by
      rw [held.readable]
      simp [Kind.encode]
    simp only [Kind.read, readBoolean, if_neg readable]
    refine (readByteUnsafe_represents held).bind ?_
    rintro ⟨byte, after⟩ ⟨rfl, remaining⟩
    refine (returns_ok _ _).mpr ⟨?_, remaining⟩
    cases value <;> rfl
  | byte => exact readByte_represents held
  | short =>
    have read : Returns s.readShort _ := readFixed_encoded held value.toNat_lt (by decide)
    have same : UInt16.ofBitVec (BitVec.ofNat 16 value.toNat) = value := UInt16.ofNat_toNat
    rwa [same] at read
  | medium =>
    have below : value.toNat < 256 ^ 3 := inRange
    have read : Returns s.readMedium _ := readFixed_encoded held below (by decide)
    have same : UInt32.ofBitVec (BitVec.ofNat 32 value.toNat) = value := UInt32.ofNat_toNat
    rwa [same] at read
  | int =>
    have read : Returns s.readInt _ := readFixed_encoded held value.toNat_lt (by decide)
    have same : UInt32.ofBitVec (BitVec.ofNat 32 value.toNat) = value := UInt32.ofNat_toNat
    rwa [same] at read
  | varInt =>
    have bound : value.toNat < 2 ^ 32 := value.toNat_lt
    have short : (Base128.encode value.toNat).length ≤ 5 :=
      Base128.length_encode_le 4 _ (Nat.lt_of_lt_of_le bound (by decide))
    have read := readVarInt_represents held
    rw [Kind.encode, Base128.decode_encode short, varIntResult, UInt32.ofNat_toNat] at read
    exact read
  | long =>
    have read : Returns s.readLong _ := readFixed_encoded held value.toNat_lt (by decide)
    have same : UInt64.ofBitVec (BitVec.ofNat 64 value.toNat) = value := UInt64.ofNat_toNat
    rwa [same] at read
  | varLong =>
    have bound : value.toNat < 2 ^ 64 := value.toNat_lt
    have short : (Base128.encode value.toNat).length ≤ 10 :=
      Base128.length_encode_le 9 _ (Nat.lt_of_lt_of_le bound (by decide))
    have read := readVarLong_represents held
    rw [Kind.encode, Base128.decode_encode short, varLongResult, UInt64.ofNat_toNat] at read
    exact read
  | uuid =>
    have whole (number : UInt64) :
        UInt64.ofNat (BigEndian.decode 0 (BigEndian.encode number.toNat 8)) = number := by
      have bound : number.toNat < 256 ^ 8 := number.toNat_lt
      rw [BigEndian.decode_encode, Nat.mod_eq_of_lt bound, UInt64.ofNat_toNat]
    have read := readUUID_represents held (BigEndian.length_encode _ _) (BigEndian.length_encode _ _)
    rw [whole, whole] at read
    exact read

/-- The bytes of a message. -/
def encodeValues (values : List Value) : List UInt8 :=
  values.flatMap fun entry => entry.kind.encode entry.value

theorem writeValues_represents (held : Represents cap bytes s) (values : List Value) :
    Returns (s.writeValues values) (Represents cap (bytes ++ encodeValues values)) := by
  induction values generalizing s bytes with
  | nil => simpa [writeValues, encodeValues] using held
  | cons first later ih =>
    refine (write_represents held first.kind first.value).bind fun after appended => ?_
    simpa [encodeValues] using ih appended

theorem readValues_represents (values : List Value) (held : Represents cap (encodeValues values ++ rest) s) :
    Returns (s.readValues (values.map Value.kind)) fun out =>
      out.1 = values.map (fun entry => ⟨entry.kind, successErrorable entry.value⟩) ∧
        Represents cap rest out.2 := by
  induction values generalizing s with
  | nil => simpa [readValues, encodeValues] using held
  | cons first later ih =>
    have split : encodeValues (first :: later) ++ rest =
        first.kind.encode first.value ++ (encodeValues later ++ rest) := by simp [encodeValues]
    rw [split] at held
    refine (read_represents first.kind first.value first.inRange held).bind ?_
    rintro ⟨result, after⟩ ⟨rfl, remaining⟩
    refine (ih remaining).bind ?_
    rintro ⟨results, final⟩ ⟨rfl, left⟩
    exact (returns_ok _ _).mpr ⟨rfl, left⟩

/-! ### The way back -/

/-- The number of bytes of a value, where that is the same for all values and
every byte sequence of that length stands for one. -/
def Kind.fixedWidth : Kind → Option Nat
  | byte => some 1
  | short => some 2
  | medium => some 3
  | int => some 4
  | long => some 8
  | uuid => some 16
  | boolean | varInt | varLong => none

/-- Any bytes of the right number stand for a value. -/
theorem fixedWidth_covers (kind : Kind) {size : Nat} (fixed : kind.fixedWidth = some size)
    (length : bytes.length = size) : ∃ value, kind.InRange value ∧ kind.encode value = bytes := by
  have below := BigEndian.decode_lt bytes
  have back := BigEndian.encode_decode bytes
  rw [length] at below back
  cases kind with
  | byte =>
    cases fixed
    obtain ⟨byte, rfl⟩ := List.length_eq_one_iff.mp length
    exact ⟨byte, trivial, rfl⟩
  | short =>
    cases fixed
    refine ⟨.ofNat (BigEndian.decode 0 bytes), trivial, ?_⟩
    rw [Kind.encode, UInt16.toNat_ofNat_of_lt' below, back]
  | medium =>
    cases fixed
    have number := UInt32.toNat_ofNat_of_lt' (Nat.lt_trans below (by decide))
    refine ⟨.ofNat (BigEndian.decode 0 bytes), ?_, ?_⟩
    · rw [Kind.InRange, number]
      exact below
    · rw [Kind.encode, number, back]
  | int =>
    cases fixed
    refine ⟨.ofNat (BigEndian.decode 0 bytes), trivial, ?_⟩
    rw [Kind.encode, UInt32.toNat_ofNat_of_lt' below, back]
  | long =>
    cases fixed
    refine ⟨.ofNat (BigEndian.decode 0 bytes), trivial, ?_⟩
    rw [Kind.encode, UInt64.toNat_ofNat_of_lt' below, back]
  | uuid =>
    cases fixed
    have half (part : List UInt8) (eight : part.length = 8) :
        BigEndian.encode (UInt64.ofNat (BigEndian.decode 0 part)).toNat 8 = part := by
      have below := BigEndian.decode_lt part
      rw [eight] at below
      rw [UInt64.toNat_ofNat_of_lt' below, ← eight, BigEndian.encode_decode]
    refine ⟨⟨.ofNat (BigEndian.decode 0 (bytes.take 8)), .ofNat (BigEndian.decode 0 (bytes.drop 8))⟩,
      trivial, ?_⟩
    rw [Kind.encode, half _ (by rw [List.length_take, length]; rfl),
      half _ (by rw [List.length_drop, length]), List.take_append_drop]
  | boolean | varInt | varLong => cases fixed

/-- A message written into a fresh buffer, with any bytes after it, is read back
value by value, and those bytes stay. What a fixed-width read makes of any
bytes is written as these bytes again. -/
theorem message_round_trip (heap : Nat → Block UInt8) (cap : Nat) (positive : 0 < cap) :
    (∀ (values : List Value) (trailing : List UInt8), ∃ written complete final,
      (new heap cap).writeValues values = .ok written ∧
      written.writeBytes trailing = .ok complete ∧
      complete.readValues (values.map Value.kind) =
        .ok (values.map fun entry => ⟨entry.kind, successErrorable entry.value⟩, final) ∧
      final.content = trailing ∧ final.readableBytes = trailing.length) ∧
    (∀ (kind : Kind) (bytes rest before : List UInt8) (source target : ByteBufferImpl),
      kind.fixedWidth = some bytes.length → Represents cap (bytes ++ rest) source →
      Represents cap before target → ∃ value left encoded,
        kind.read source = .ok (successErrorable value, left) ∧ left.content = rest ∧
        kind.write target value = .ok encoded ∧ encoded.content = before ++ bytes) := by
  constructor
  · intro values trailing
    obtain ⟨written, wrote, held⟩ := writeValues_represents (represents_new heap positive) values
    obtain ⟨complete, completed, whole⟩ := writeBytes_represents held trailing
    rw [List.nil_append] at whole
    obtain ⟨⟨results, final⟩, read, same, remaining⟩ := readValues_represents values whole
    simp only at same remaining
    subst same
    exact ⟨written, complete, final, wrote, completed, read, remaining.content, remaining.readable⟩
  · intro kind bytes rest before source target fixed held base
    obtain ⟨value, inRange, rfl⟩ := fixedWidth_covers kind fixed rfl
    obtain ⟨⟨result, left⟩, read, same, remaining⟩ := read_represents kind value inRange held
    simp only at same remaining
    subst same
    obtain ⟨encoded, wrote, appended⟩ := write_represents base kind value
    exact ⟨value, left, encoded, read, remaining.content, wrote, appended.content⟩

/-- Both ways on segments of two bytes: a value across three of them, and a
short in the middle of other bytes. -/
theorem message_round_trip_small_segments :
    (∃ written complete final,
      (new (fun _ _ => 0) 2).writeValues
        [⟨.boolean, true, trivial⟩, ⟨.int, 0x01020304, trivial⟩, ⟨.varInt, 300, trivial⟩] = .ok written ∧
      written.writeBytes [7, 8] = .ok complete ∧
      complete.readValues [.boolean, .int, .varInt] = .ok ([⟨.boolean, successErrorable true⟩,
        ⟨.int, successErrorable 0x01020304⟩, ⟨.varInt, successErrorable 300⟩], final) ∧
      final.content = [7, 8] ∧ final.readableBytes = 2) ∧
    ∃ source target value left encoded,
      (new (fun _ _ => 0) 2).writeBytes [1, 2, 3] = .ok source ∧
      (new (fun _ _ => 0) 2).writeBytes [9] = .ok target ∧
      Kind.short.read source = .ok (successErrorable value, left) ∧ left.content = [3] ∧
      Kind.short.write target value = .ok encoded ∧ encoded.content = [9, 1, 2] := by
  obtain ⟨forth, back⟩ := message_round_trip (fun _ _ => 0) 2 (by decide)
  refine ⟨forth _ [7, 8], ?_⟩
  obtain ⟨source, filled, held⟩ :=
    writeBytes_represents (represents_new (fun _ _ => 0) (by decide : 0 < 2)) [1, 2, 3]
  obtain ⟨target, prepared, base⟩ :=
    writeBytes_represents (represents_new (fun _ _ => 0) (by decide : 0 < 2)) [9]
  obtain ⟨value, left, encoded, run⟩ := back .short [1, 2] [3] [9] source target rfl held base
  exact ⟨source, target, value, left, encoded, filled, prepared, run⟩

end ShipNet.ByteBufferImpl
