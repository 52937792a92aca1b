import Mathlib.Data.List.TakeWhile
import ShipNet.ReachableBuffer
import ShipNet.SizePrediction

/-! Strings and byte arrays behind their length. The bytes of both are read as they were
written; what is made of them is a string up to the first zero byte, and a buffer that
counts none of its bytes. -/
namespace ShipNet.ByteBufferImpl
open Fallible ByteBuffer

variable {s source : ByteBufferImpl} {cap sourceCap : Nat} {bytes rest : List UInt8}

/-! ### The length and the bytes -/

theorem readLength_represents (held : Represents cap (Base128.encode bytes.length ++ rest) s)
    (short : bytes.length < 2 ^ 32) :
    Returns s.readVarInt fun out =>
      out.1 = successErrorable (.ofNat bytes.length) ∧ Represents cap rest out.2 := by
  have same : (UInt32.ofNat bytes.length).toNat = bytes.length := UInt32.toNat_ofNat_of_lt' short
  exact read_represents .varInt (.ofNat bytes.length) trivial (by rwa [Kind.encode, same])

/-- A read of so many bytes into a new array. Of nothing, it needs something behind. -/
theorem readNewBytes_represents (held : Represents cap (bytes ++ rest) s) (fresh : Block UInt8)
    (short : bytes.length < 2 ^ 32) (more : bytes ++ rest ≠ []) :
    Returns (s.readNewBytes fresh bytes.length) fun out =>
      out.1 = successErrorable bytes ∧ out.2.1.cells.read 0 bytes.length = bytes ∧ Represents cap rest out.2.2 := by
  rcases Nat.eq_zero_or_pos bytes.length with none | some
  · obtain ⟨refreshed, refresh, kept, -⟩ := tryRefreshReaderBuffer_represents held more
    rw [List.length_eq_zero_iff.mp none, List.nil_append] at kept
    rw [List.length_eq_zero_iff.mp none, readNewBytes, List.length_nil, readBytes_zero held.wellFormed refresh,
      returns_ok]
    exact ⟨rfl, Block.read_zero _ _, kept⟩
  · have read := readBytes_represents held ⟨fresh, bytes.length⟩ some (Nat.le_refl _)
      (by rw [List.length_append]; exact Nat.le_add_right _ _) (lastPieceOffset_lt _ _ (Nat.le_of_lt short))
    rw [List.take_left, List.drop_left] at read
    exact read.mono fun out after => ⟨after.1, after.2.2.1, after.2.2.2.2⟩

/-! ### Strings -/

/-- Of a string that was written, what is read ends in front of the first zero byte; where
there is none, the read goes past the end of the array. -/
theorem readString_written {string trailing : List UInt8}
    (held : Represents cap (Base128.encode string.length ++ (string ++ trailing)) s) (fresh : Block UInt8)
    {maxSize : UInt32} (fits : string.length ≤ maxSize.toNat) (more : trailing ≠ []) :
    ∃ after, Represents cap trailing after ∧
      s.readString fresh maxSize = (stringOfPointer string).map fun text => (successErrorable text, after) := by
  have short : string.length < 2 ^ 32 := Nat.lt_of_le_of_lt fits maxSize.toNat_lt
  have same : (UInt32.ofNat string.length).toNat = string.length := UInt32.toNat_ofNat_of_lt' short
  obtain ⟨⟨length, behind⟩, ranLength, rfl, held⟩ := readLength_represents held short
  obtain ⟨⟨bytes, array, after⟩, ranBytes, rfl, -, remaining⟩ :=
    readNewBytes_represents held fresh short (List.append_ne_nil_of_right_ne_nil _ more)
  have within : ¬ UInt32.ofNat string.length > maxSize := by
    rw [gt_iff_lt, UInt32.lt_iff_toNat_lt, same]
    exact Nat.not_lt.mpr fits
  refine ⟨after, remaining, ?_⟩
  simp only [readString, ranLength, ok_bind, success_isSuccess, success_value, Bool.not_true, Bool.false_eq_true,
    if_false, if_neg within, same, ranBytes]
  cases stringOfPointer string <;> rfl

theorem stringOfPointer_ne (string : List UInt8) : stringOfPointer string ≠ .ok string := by
  unfold stringOfPointer
  split
  · rename_i zero
    intro same
    have nonzero := List.takeWhile_eq_self_iff.mp (Except.ok.inj same) 0 zero
    exact absurd nonzero (by decide)
  · exact fun same => by cases same

/-- What is written with something behind it is read back, and nothing else is read.
The new array is one that holds `fresh`. -/
def StringRoundTrips (s : ByteBufferImpl) (string trailing : List UInt8) (maxSize : UInt32) (fresh : Block UInt8) :
    Prop :=
  ∃ prefixed written after,
    s.writeString string = .ok prefixed ∧ prefixed.writeBytes trailing = .ok written ∧
      written.readString fresh maxSize = .ok (successErrorable string, after) ∧
      after.readableBytes + (stringBytes string).toNat = written.readableBytes

private theorem string_is_not_read_back (held : Represents cap [] s) {string trailing : List UInt8}
    (more : trailing ≠ []) {maxSize : UInt32} (fits : string.length ≤ maxSize.toNat) (fresh : Block UInt8) :
    ¬ StringRoundTrips s string trailing maxSize fresh := by
  rintro ⟨prefixed, written, after, wrote, wroteTrailing, read, -⟩
  have short : string.length < 2 ^ 32 := Nat.lt_of_le_of_lt fits maxSize.toNat_lt
  have same : (UInt32.ofNat string.length).toNat = string.length := UInt32.toNat_ofNat_of_lt' short
  obtain ⟨_, wrote', begun⟩ := writeString_represents held string
  cases wrote.symm.trans wrote'
  obtain ⟨_, wroteTrailing', whole⟩ := writeBytes_represents begun trailing
  cases wroteTrailing.symm.trans wroteTrailing'
  rw [List.nil_append, same, List.append_assoc] at whole
  obtain ⟨final, -, reads⟩ := readString_written whole fresh fits more
  rw [reads] at read
  obtain ⟨text, converted, answer⟩ := returns_of_map read
  have text_eq : text = string := congrArg (fun out => out.1.value) answer
  exact stringOfPointer_ne string (text_eq ▸ converted)

/-- No string is read back: one without a zero byte reads on past its end, and any other
is cut off. -/
theorem string_never_round_trips (positive : 0 < cap) (reachable : Reachable cap s) (empty : s.content = [])
    {string trailing : List UInt8} (more : trailing ≠ []) {maxSize : UInt32} (fits : string.length ≤ maxSize.toNat)
    (fresh : Block UInt8) : ¬ StringRoundTrips s string trailing maxSize fresh := by
  have held := reachable.represents positive
  rw [empty] at held
  exact string_is_not_read_back held more fits fresh

theorem string_without_zero_does_not_round_trip :
    ¬ StringRoundTrips (new (fun _ _ => 0) 2) [104, 105] [0] 16 fun _ => 0 :=
  string_never_round_trips (by decide) (.new _) rfl (by decide) (by decide) _

/-- The two bytes from a zero byte on are lost. -/
theorem string_with_zero_is_cut_off :
    ¬ StringRoundTrips (new (fun _ _ => 0) 2) [104, 0, 105] [1] 16 fun _ => 0 :=
  string_is_not_read_back (represents_new _ (by decide)) (by decide) (by decide) _

/-! ### Byte arrays -/

theorem writeByteArray_represents (held : Represents cap bytes s) (scratch : Block UInt8) {array : List UInt8}
    (origin : Represents sourceCap array source) (nonempty : array ≠ []) (bounded : array.length ≤ maxPacketSize) :
    Returns (s.writeByteArray scratch source) fun out =>
      Represents cap (bytes ++ (Base128.encode array.length ++ array)) out.1 ∧ Represents sourceCap [] out.2.2 := by
  have same : (UInt32.ofNat array.length).toNat = array.length :=
    UInt32.toNat_ofNat_of_lt' (Nat.lt_of_le_of_lt bounded (by decide))
  rw [writeByteArray, origin.readable]
  refine (writeVarInt_represents held (.ofNat array.length)).bind fun prefixed announced => ?_
  rw [same] at announced
  refine (writeBytesFrom_represents announced scratch origin (List.length_pos_iff.mpr nonempty) bounded
    (Nat.le_refl _)).mono ?_
  rintro out ⟨appended, drained, -⟩
  rw [List.take_length, List.append_assoc] at appended
  rw [List.drop_length] at drained
  exact ⟨appended, drained⟩

/-- The array of the buffer that is made holds the bytes. -/
theorem readArrayOf_written {array : List UInt8} (held : Represents cap (array ++ rest) s) (fresh : Block UInt8)
    (heap : Nat → Block UInt8) (nonempty : array ≠ []) (short : array.length < 2 ^ 32) :
    ∃ cells after, cells.read 0 array.length = array ∧ Represents cap rest after ∧
      s.readArrayOf fresh heap (.ofNat array.length) =
        .ok (successErrorable (some (ofArray heap cells array.length)), after) := by
  have same : (UInt32.ofNat array.length).toNat = array.length := UInt32.toNat_ofNat_of_lt' short
  obtain ⟨⟨result, filled, after⟩, ran, rfl, copied, remaining⟩ :=
    readNewBytes_represents held fresh short (List.append_ne_nil_of_left_ne_nil nonempty _)
  refine ⟨filled.cells, after, copied, remaining, ?_⟩
  simp only [readArrayOf, same, ran, ok_bind, success_isSuccess, Bool.not_true, Bool.false_eq_true, if_false,
    pure_is_ok]

/-- Both ways to read an array come to this, the second one if the array is not too long. -/
theorem readByteArray_written {array : List UInt8}
    (held : Represents cap (Base128.encode array.length ++ (array ++ rest)) s) (fresh : Block UInt8)
    (heap : Nat → Block UInt8) (nonempty : array ≠ []) (short : array.length < 2 ^ 32) :
    ∃ cells after, cells.read 0 array.length = array ∧ Represents cap rest after ∧
      s.readByteArray fresh heap = .ok (successErrorable (some (ofArray heap cells array.length)), after) ∧
      ∀ maxSize : UInt32, array.length ≤ maxSize.toNat → s.readByteArrayWithin fresh heap maxSize =
        .ok (successErrorable (some (ofArray heap cells array.length)), after) := by
  have same : (UInt32.ofNat array.length).toNat = array.length := UInt32.toNat_ofNat_of_lt' short
  obtain ⟨⟨length, behind⟩, ranLength, rfl, held⟩ := readLength_represents held short
  obtain ⟨cells, after, copied, remaining, ran⟩ := readArrayOf_written held fresh heap nonempty short
  refine ⟨cells, after, copied, remaining, ?_, fun maxSize fits => ?_⟩
  · simp only [readByteArray, ranLength, ok_bind, success_isSuccess, success_value, Bool.not_true, Bool.false_eq_true,
      if_false, ran]
  · have within : ¬ UInt32.ofNat array.length > maxSize := by
      rw [gt_iff_lt, UInt32.lt_iff_toNat_lt, same]
      exact Nat.not_lt.mpr fits
    simp only [readByteArrayWithin, ranLength, ok_bind, success_isSuccess, success_value, Bool.not_true,
      Bool.false_eq_true, if_false, if_neg within, ran]

/-- The bytes of the one buffer are written into the other, and `read` makes a buffer of
them again that counts them, and reads nothing else. -/
def ArrayRoundTrips (s : ByteBufferImpl) (scratch : Block UInt8) (source : ByteBufferImpl)
    (read : ByteBufferImpl → Exec (Errorable (Option ByteBufferImpl) × ByteBufferImpl)) : Prop :=
  ∃ written used drained array after,
    s.writeByteArray scratch source = .ok (written, used, drained) ∧
      read written = .ok (successErrorable (some array), after) ∧
      after.readableBytes + (arrayBytes (.ofNat source.readableBytes)).toNat = written.readableBytes ∧
      array.readableBytes = source.readableBytes ∧ array.content = source.content

theorem arrayBytes_eq {count : Nat} (bounded : count ≤ maxPacketSize) :
    (arrayBytes (.ofNat count)).toNat = (Base128.encode count).length + count := by
  have small : count < 128 ^ 4 := Nat.lt_of_le_of_lt bounded (by decide)
  have same : (UInt32.ofNat count).toNat = count := UInt32.toNat_ofNat_of_lt' (Nat.lt_trans small (by decide))
  have few := Base128.length_encode_le 3 count small
  have size := varIntBytes_eq (.ofNat count)
  rw [same] at size
  rw [arrayBytes, UInt32.toNat_add, size, same, Nat.mod_eq_of_lt]
  omega

/-- All of it but the count is as it should be: the bytes are read, and in the array. -/
theorem array_read_back_uncounted (held : Represents cap [] s) (scratch : Block UInt8) {array : List UInt8}
    (origin : Represents sourceCap array source) (nonempty : array ≠ []) (bounded : array.length ≤ maxPacketSize)
    (fresh : Block UInt8) (heap : Nat → Block UInt8) :
    ∃ written used drained cells after,
      s.writeByteArray scratch source = .ok (written, used, drained) ∧ cells.read 0 array.length = array ∧
        written.readByteArray fresh heap = .ok (successErrorable (some (ofArray heap cells array.length)), after) ∧
        (∀ maxSize : UInt32, array.length ≤ maxSize.toNat → written.readByteArrayWithin fresh heap maxSize =
          .ok (successErrorable (some (ofArray heap cells array.length)), after)) ∧
        after.readableBytes + (arrayBytes (.ofNat array.length)).toNat = written.readableBytes := by
  have short : array.length < 2 ^ 32 := Nat.lt_of_le_of_lt bounded (by decide)
  have same : (UInt32.ofNat array.length).toNat = array.length := UInt32.toNat_ofNat_of_lt' short
  obtain ⟨⟨written, used, drained⟩, wrote, whole, -⟩ := writeByteArray_represents held scratch origin nonempty bounded
  have counted := whole.readable
  simp only [List.nil_append, List.length_append] at counted
  obtain ⟨cells, after, copied, remaining, ran, ranWithin⟩ :=
    readByteArray_written (show Represents cap (Base128.encode array.length ++ (array ++ [])) written by
      simpa using whole) fresh heap nonempty short
  have left : after.readableBytes = 0 := remaining.readable
  refine ⟨written, used, drained, cells, after, wrote, copied, ran, ranWithin, ?_⟩
  rw [left, counted, Nat.zero_add, arrayBytes_eq bounded]

private theorem array_is_not_read_back (held : Represents cap [] s) (scratch : Block UInt8) {array : List UInt8}
    (origin : Represents sourceCap array source) (nonempty : array ≠ []) (bounded : array.length ≤ maxPacketSize)
    (fresh : Block UInt8) (heap : Nat → Block UInt8) :
    ¬ ArrayRoundTrips s scratch source (readByteArray · fresh heap) ∧
      ∀ maxSize : UInt32, array.length ≤ maxSize.toNat →
        ¬ ArrayRoundTrips s scratch source (readByteArrayWithin · fresh heap maxSize) := by
  have positive := List.length_pos_iff.mpr nonempty
  rw [← origin.readable] at positive
  obtain ⟨written, used, drained, cells, after, wrote, -, ran, ranWithin, -⟩ :=
    array_read_back_uncounted held scratch origin nonempty bounded fresh heap
  constructor
  · rintro ⟨written', used', drained', array, after', wrote', ran', -, counted, -⟩
    cases wrote.symm.trans wrote'
    cases ran.symm.trans ran'
    exact Nat.ne_of_lt positive counted
  · rintro maxSize fits ⟨written', used', drained', array, after', wrote', ran', -, counted, -⟩
    cases wrote.symm.trans wrote'
    cases (ranWithin maxSize fits).symm.trans ran'
    exact Nat.ne_of_lt positive counted

/-- A buffer that wraps an array counts none of its bytes, so no array is read back. -/
theorem byte_array_never_round_trips (targetCapacity : 0 < cap) (sourceCapacity : 0 < sourceCap)
    (target : Reachable cap s) (empty : s.content = []) (origin : Reachable sourceCap source)
    (nonempty : source.content ≠ []) (bounded : source.content.length ≤ maxPacketSize) (scratch fresh : Block UInt8)
    (heap : Nat → Block UInt8) :
    ¬ ArrayRoundTrips s scratch source (readByteArray · fresh heap) ∧
      ∀ maxSize : UInt32, source.content.length ≤ maxSize.toNat →
        ¬ ArrayRoundTrips s scratch source (readByteArrayWithin · fresh heap maxSize) := by
  have held := target.represents targetCapacity
  rw [empty] at held
  exact array_is_not_read_back held scratch (origin.represents sourceCapacity) nonempty bounded fresh heap

/-- Two bytes out of a buffer with segments of one. -/
theorem two_bytes_do_not_round_trip : ∃ source reply,
    (new (fun _ _ => 0) 1).step (.writeBytes [1, 2]) = .ok (source, reply) ∧
      (¬ ArrayRoundTrips (new (fun _ _ => 0) 4) (fun _ => 0) source (readByteArray · (fun _ => 0) fun _ _ => 0)) ∧
      ¬ ArrayRoundTrips (new (fun _ _ => 0) 4) (fun _ => 0) source
        (readByteArrayWithin · (fun _ => 0) (fun _ _ => 0) 2) := by
  have content : ((new (fun _ _ => 0) 1).step (.writeBytes [1, 2])).map (fun out => out.1.content) = .ok [1, 2] := rfl
  obtain ⟨⟨source, reply⟩, ran, content⟩ := returns_of_map content
  have target : Reachable 4 (new (fun _ _ => 0) 4) := .new _
  have origin : Reachable 1 source := .called (.new _) (by trivial) ran
  simp only at content
  obtain ⟨whole, within⟩ := byte_array_never_round_trips (by decide) (by decide) target rfl origin
    (by rw [content]; decide) (by rw [content]; decide) (fun _ => 0) (fun _ => 0) fun _ _ => 0
  exact ⟨source, reply, ran, whole, within 2 (by rw [content]; decide)⟩

/-- Of one byte, the buffer read back counts none. -/
theorem one_byte_is_not_counted : ∃ source,
    (new (fun _ _ => 0) 4).writeByte 1 = .ok source ∧
      ¬ ArrayRoundTrips (new (fun _ _ => 0) 4) (fun _ => 0) source (readByteArray · (fun _ => 0) fun _ _ => 0) := by
  have fresh := represents_new (fun _ _ => 0) (show 0 < 4 by decide)
  obtain ⟨source, wrote, origin⟩ := writeByte_represents fresh 1
  exact ⟨source, wrote, (array_is_not_read_back fresh _ origin (by simp) (by decide) _ _).1⟩

end ShipNet.ByteBufferImpl
