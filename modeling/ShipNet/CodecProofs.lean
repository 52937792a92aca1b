import Mathlib.Data.Nat.Bitwise
import Mathlib.Tactic.Ring
import ShipNet.Base128
import ShipNet.BigEndian
import ShipNet.ByteBufferQueue
import ShipNet.Codec

/-! What the typed writes append and the typed reads take, whatever segments the
bytes fall into. -/
namespace ShipNet.ByteBufferImpl
open Fallible

variable {s : ByteBufferImpl} {cap width : Nat} {bytes rest : List UInt8}

/-! ### Bytes of machine integers -/

theorem lowByte_shifted (input : BitVec width) (count : Nat) :
    lowByte (input >>> (8 * count)) = UInt8.ofNat (input.toNat / 256 ^ count) := by
  apply UInt8.toNat_inj.mp
  have power : 2 ^ (8 * count) = 256 ^ count := by rw [Nat.pow_mul]
  simp [lowByte, Nat.shiftRight_eq_div_pow, power, UInt8.toNat_ofNat']

theorem lowByte_small (input : BitVec width) : lowByte input = UInt8.ofNat input.toNat := by
  simpa using lowByte_shifted input 0

theorem low_seven_bits (byte : UInt8) : (byte &&& 0x7F).toNat = byte.toNat % 128 := by
  rw [UInt8.toNat_and]
  exact Nat.and_two_pow_sub_one_eq_mod byte.toNat 7

theorem top_bit_clear (byte : UInt8) : byte &&& 0x80 = 0 ↔ byte.toNat < 128 := by
  have bound : byte.toNat < 256 := byte.toNat_lt
  rw [← UInt8.toNat_inj, UInt8.toNat_and]
  change byte.toNat &&& 2 ^ 7 = 0 ↔ _
  rw [Nat.and_two_pow, Nat.testBit_eq_decide_div_mod_eq]
  by_cases small : byte.toNat < 128
  · simp [small, Nat.div_eq_of_lt small]
  · have one : byte.toNat / 128 % 2 = 1 := by omega
    simp [small, one]

/-- Digits put above a number that leaves them room, in a fixed width. -/
theorem or_shifted {low place : Nat} (digit : Nat) (below : low < 2 ^ place) (fits : place ≤ width) :
    low ||| digit * 2 ^ place % 2 ^ width = (low + digit * 2 ^ place) % 2 ^ width := by
  have split : 2 ^ width = 2 ^ (width - place) * 2 ^ place := by
    rw [← Nat.pow_add, Nat.sub_add_cancel fits]
  have kept : digit * 2 ^ place % 2 ^ width = digit % 2 ^ (width - place) * 2 ^ place := by
    rw [split, Nat.mul_mod_mul_right]
  have disjoint := Nat.shiftLeft_add_eq_or_of_lt below (digit % 2 ^ (width - place))
  rw [Nat.shiftLeft_eq] at disjoint
  have smaller : digit % 2 ^ (width - place) + 1 ≤ 2 ^ (width - place) :=
    Nat.mod_lt _ (Nat.two_pow_pos _)
  have lowFits : low < 2 ^ width := Nat.lt_of_lt_of_le below (Nat.pow_le_pow_right (by decide) fits)
  have sumFits : low + digit % 2 ^ (width - place) * 2 ^ place < 2 ^ width := by
    calc low + digit % 2 ^ (width - place) * 2 ^ place
        < 2 ^ place + digit % 2 ^ (width - place) * 2 ^ place := by omega
      _ = (digit % 2 ^ (width - place) + 1) * 2 ^ place := by ring
      _ ≤ 2 ^ width := by rw [split]; exact Nat.mul_le_mul_right _ smaller
  calc low ||| digit * 2 ^ place % 2 ^ width
      = digit % 2 ^ (width - place) * 2 ^ place + low := by rw [kept, Nat.or_comm, disjoint]
    _ = low + digit % 2 ^ (width - place) * 2 ^ place := Nat.add_comm _ _
    _ = (low + digit % 2 ^ (width - place) * 2 ^ place) % 2 ^ width := (Nat.mod_eq_of_lt sumFits).symm
    _ = (low + digit * 2 ^ place) % 2 ^ width := by
      rw [Nat.add_mod low (digit * _), kept, Nat.mod_eq_of_lt lowFits]

/-! ### Fixed widths -/

theorem writeShifted_eq_writeEach (s : ByteBufferImpl) (input : BitVec width) (count : Nat) :
    s.writeShifted input count = s.writeEach (BigEndian.encode input.toNat count) := by
  induction count generalizing s with
  | zero => rfl
  | succ count ih =>
    rw [writeShifted, BigEndian.encode, writeEach, lowByte_shifted]
    exact bind_congr ih

theorem writeShifted_represents (held : Represents cap bytes s) (input : BitVec width) (count : Nat) :
    Returns (s.writeShifted input count) (Represents cap (bytes ++ BigEndian.encode input.toNat count)) := by
  rw [writeShifted_eq_writeEach]
  exact (writeEach_appends held _).mono fun _ after => after.1

private theorem readShifted_represents {count : Nat} (high : Nat) (value : BitVec width)
    (held : Represents cap (bytes ++ rest) s) (length : bytes.length = count)
    (collected : value.toNat = high * 256 ^ count) (room : (high + 1) * 256 ^ count ≤ 2 ^ width) :
    Returns (s.readShifted value count) fun out =>
      out.1.toNat = BigEndian.decode high bytes ∧ Represents cap rest out.2 := by
  induction count generalizing s bytes high value with
  | zero =>
    obtain rfl := List.length_eq_zero_iff.mp length
    simpa [readShifted, BigEndian.decode] using ⟨by simpa using collected, held⟩
  | succ count ih =>
    obtain ⟨byte, bytes, rfl⟩ := List.exists_cons_of_length_eq_add_one length
    refine (readByteUnsafe_represents held).bind ?_
    rintro ⟨read, after⟩ ⟨same, remaining⟩
    simp only at same remaining
    subst same
    have bound : read.toNat < 256 := read.toNat_lt
    have positive : 0 < 256 ^ count := Nat.pow_pos (by decide)
    have power : 2 ^ (8 * count) = 256 ^ count := by rw [Nat.pow_mul]
    have digitFits : read.toNat * 256 ^ count < 2 ^ width := by
      calc read.toNat * 256 ^ count < 256 * 256 ^ count := by
            exact Nat.mul_lt_mul_of_pos_right bound positive
        _ = 256 ^ (count + 1) := (Nat.pow_succ').symm
        _ ≤ (high + 1) * 256 ^ (count + 1) := Nat.le_mul_of_pos_left _ (Nat.succ_pos _)
        _ ≤ 2 ^ width := room
    have byteFits : read.toNat < 2 ^ width :=
      Nat.lt_of_le_of_lt (Nat.le_mul_of_pos_right _ positive) digitFits
    have below : read.toNat * 256 ^ count < 2 ^ (8 * (count + 1)) := by
      rw [Nat.pow_mul, Nat.pow_succ, Nat.mul_comm (_ ^ count)]
      exact Nat.mul_lt_mul_of_pos_right bound positive
    have next : (value ||| read.toBitVec.setWidth width <<< (8 * count)).toNat =
        (high * 256 + read.toNat) * 256 ^ count := by
      have disjoint := Nat.shiftLeft_add_eq_or_of_lt below high
      rw [Nat.shiftLeft_eq, Nat.pow_mul] at disjoint
      rw [BitVec.toNat_or, BitVec.toNat_shiftLeft, BitVec.toNat_setWidth, UInt8.toNat_toBitVec,
        Nat.mod_eq_of_lt byteFits, Nat.shiftLeft_eq, power, Nat.mod_eq_of_lt digitFits, collected]
      rw [show (256 : Nat) = 2 ^ 8 from rfl] at *
      rw [← disjoint]
      ring
    have further := ih _ _ remaining (by simpa using length) next (by
      calc (high * 256 + read.toNat + 1) * 256 ^ count ≤ (high * 256 + 256) * 256 ^ count := by
            exact Nat.mul_le_mul_right _ (by omega)
        _ = (high + 1) * 256 ^ (count + 1) := by ring
        _ ≤ 2 ^ width := room)
    exact further

/-- A fixed-width read takes its bytes and answers their number. -/
theorem readFixed_represents {T : Type} {count : Nat} {incomplete : UInt64 → Errorable T}
    {convert : BitVec width → T} (held : Represents cap (bytes ++ rest) s)
    (length : bytes.length = count) (room : 256 ^ count ≤ 2 ^ width) :
    Returns (s.readFixed count incomplete convert) fun out =>
      out.1 = successErrorable (convert (BitVec.ofNat width (BigEndian.decode 0 bytes))) ∧
        Represents cap rest out.2 := by
  have readable : ¬ s.readableBytes < count := by
    rw [held.readable, List.length_append]
    omega
  simp only [readFixed, if_neg readable]
  refine (readShifted_represents 0 (0 : BitVec width) held length
    (by simp) (by simpa using room)).bind ?_
  rintro ⟨value, after⟩ ⟨number, remaining⟩
  refine (returns_ok _ _).mpr ⟨?_, remaining⟩
  rw [← number]
  simp

/-! ### Variable widths -/

private theorem seven_bits_left (wide : 8 ≤ width) (input : BitVec width) :
    input &&& ~~~(.ofNat width 0x7F) = 0 ↔ input.toNat < 128 := by
  have mask : (BitVec.ofNat width 0x7F).toNat = 127 := by
    rw [BitVec.toNat_ofNat, Nat.mod_eq_of_lt]
    exact Nat.lt_of_lt_of_le (by decide : 127 < 2 ^ 8) (Nat.pow_le_pow_right (by decide) wide)
  constructor
  · intro cleared
    have kept : input &&& BitVec.ofNat width 0x7F = input := by
      have whole : input &&& (BitVec.ofNat width 0x7F ||| ~~~(.ofNat width 0x7F)) = input := by
        rw [BitVec.or_not_self, BitVec.and_allOnes]
      rwa [BitVec.and_or_distrib_left, cleared, BitVec.ofNat_eq_ofNat, BitVec.or_zero] at whole
    rw [← kept, BitVec.toNat_and, mask]
    exact Nat.lt_of_le_of_lt Nat.and_le_right (by decide)
  · intro small
    have kept : input &&& BitVec.ofNat width 0x7F = input := by
      apply BitVec.eq_of_toNat_eq
      rw [BitVec.toNat_and, mask]
      exact (Nat.and_two_pow_sub_one_eq_mod input.toNat 7).trans (Nat.mod_eq_of_lt small)
    rw [← kept, BitVec.and_assoc, BitVec.and_not_self]
    simp

theorem writeVariable_represents (wide : 8 ≤ width) (held : Represents cap bytes s) (input : BitVec width) :
    Returns (s.writeVariable input) (Represents cap (bytes ++ Base128.encode input.toNat)) := by
  have bound : 2 ^ 8 ≤ 2 ^ width := Nat.pow_le_pow_right (by decide) wide
  have mask : (BitVec.ofNat width 0x7F).toNat = 127 := by rw [BitVec.toNat_ofNat, Nat.mod_eq_of_lt (by omega)]
  have top : (BitVec.ofNat width 0x80).toNat = 128 := by rw [BitVec.toNat_ofNat, Nat.mod_eq_of_lt (by omega)]
  induction s, input using writeVariable.induct generalizing bytes with
  | case1 s input small =>
    rw [writeVariable, dif_pos small, lowByte_small,
      Base128.encode_small ((seven_bits_left wide input).mp small)]
    exact writeByte_represents held _
  | case2 s input large ih =>
    have more : ¬ input.toNat < 128 := fun small => large ((seven_bits_left wide input).mpr small)
    have digit : lowByte ((input &&& BitVec.ofNat width 0x7F) ||| BitVec.ofNat width 0x80) =
        UInt8.ofNat (input.toNat % 128 + 128) := by
      have low : input.toNat &&& 127 = input.toNat % 128 :=
        Nat.and_two_pow_sub_one_eq_mod input.toNat 7
      have disjoint := Nat.two_pow_add_eq_or_of_lt (i := 7) (Nat.mod_lt input.toNat (by decide)) 1
      rw [lowByte_small, BitVec.toNat_or, BitVec.toNat_and, mask, top, low, Nat.or_comm,
        Nat.add_comm]
      exact congrArg UInt8.ofNat disjoint.symm
    have shifted : (input >>> 7).toNat = input.toNat / 128 := by
      rw [BitVec.toNat_ushiftRight, Nat.shiftRight_eq_div_pow]
    rw [writeVariable, dif_neg large, digit, Base128.encode_large more]
    refine (writeByte_represents held _).bind fun after appended => ?_
    simpa [shifted] using ih after appended

/-- How the loop is left on what a reader of so many bytes makes of the content. -/
def VariableEnd.ofOutcome (width low place : Nat) : Base128.Outcome → VariableEnd width
  | .complete value _ => .decoded (BitVec.ofNat width (low + 128 ^ place * value))
  | .incomplete => .incomplete
  | .overlong value _ => .invalid (BitVec.ofNat width (low + 128 ^ place * value))

theorem VariableEnd.ofOutcome_shift (low place digit : Nat) (outcome : Base128.Outcome) :
    ofOutcome width low place (outcome.shift digit) =
      ofOutcome width (low + digit * 128 ^ place) (place + 1) outcome := by
  have same (value : Nat) : low + 128 ^ place * (digit + 128 * value) =
      low + digit * 128 ^ place + 128 ^ (place + 1) * value := by ring
  cases outcome <;> simp only [Base128.Outcome.shift, ofOutcome, same]

/-- The reading loop over any content: it takes the bytes that a reader of at
most `rounds` takes, and ends as that reader does. -/
theorem readVariable_represents {byteIndex rounds : Nat} (low : Nat) (held : Represents cap bytes s)
    (below : low < 128 ^ byteIndex) (wide : 7 * (byteIndex + rounds) < width + 7) :
    Returns (s.readVariable byteIndex (BitVec.ofNat width low) rounds) fun out =>
      out.1 = .ofOutcome width low byteIndex (Base128.decode rounds bytes) ∧
        Represents cap (Base128.decode rounds bytes).rest out.2 := by
  induction rounds generalizing s bytes byteIndex low with
  | zero =>
    refine (returns_ok _ _).mpr ⟨?_, held⟩
    simp [Base128.decode, VariableEnd.ofOutcome]
  | succ rounds ih =>
    unfold readVariable
    cases bytes with
    | nil =>
      rw [if_pos (by rw [held.readable]; decide)]
      exact (returns_ok _ _).mpr ⟨rfl, held⟩
    | cons byte bytes =>
      rw [if_neg (by rw [held.readable]; simp)]
      refine (readByteUnsafe_represents held).bind ?_
      rintro ⟨read, after⟩ ⟨same, remaining⟩
      simp only at same remaining
      subst same
      have place : 7 * byteIndex ≤ width := by omega
      have power : 2 ^ (7 * byteIndex) = 128 ^ byteIndex := by rw [Nat.pow_mul]
      have digit : (BitVec.ofNat width low ||| (read &&& 0x7F).toBitVec.setWidth width <<< (byteIndex * 7)) =
          BitVec.ofNat width (low + read.toNat % 128 * 128 ^ byteIndex) := by
        have lowFits : low < 2 ^ width :=
          Nat.lt_of_lt_of_le (power ▸ below) (Nat.pow_le_pow_right (by decide) place)
        have joined := or_shifted (read.toNat % 128) (power ▸ below) place
        apply BitVec.eq_of_toNat_eq
        rw [BitVec.toNat_or, BitVec.toNat_shiftLeft, BitVec.toNat_setWidth, BitVec.toNat_ofNat,
          BitVec.toNat_ofNat, UInt8.toNat_toBitVec, low_seven_bits, Nat.shiftLeft_eq,
          Nat.mod_eq_of_lt lowFits, Nat.mul_comm byteIndex 7, Nat.mod_mul_mod, joined, power]
      have nextBelow : low + read.toNat % 128 * 128 ^ byteIndex < 128 ^ (byteIndex + 1) := by
        have digitBound : read.toNat % 128 + 1 ≤ 128 := Nat.mod_lt _ (by decide)
        calc low + read.toNat % 128 * 128 ^ byteIndex
            < 128 ^ byteIndex + read.toNat % 128 * 128 ^ byteIndex := by omega
          _ = (read.toNat % 128 + 1) * 128 ^ byteIndex := by ring
          _ ≤ 128 * 128 ^ byteIndex := Nat.mul_le_mul_right _ digitBound
          _ = 128 ^ (byteIndex + 1) := (Nat.pow_succ').symm
      simp only [digit, Base128.decode]
      by_cases last : read.toNat < 128
      · rw [if_pos ((top_bit_clear read).mpr last), if_pos last]
        refine (returns_ok _ _).mpr ⟨?_, remaining⟩
        rw [VariableEnd.ofOutcome, Nat.mod_eq_of_lt last, Nat.mul_comm]
      · rw [if_neg (fun clear => last ((top_bit_clear read).mp clear)), if_neg last,
          VariableEnd.ofOutcome_shift, Base128.Outcome.rest_shift]
        exact ih _ remaining nextBelow (by omega)

theorem writeVarInt_represents (held : Represents cap bytes s) (input : UInt32) :
    Returns (s.writeVarInt input) (Represents cap (bytes ++ Base128.encode input.toNat)) :=
  writeVariable_represents (by decide) held input.toBitVec

theorem writeVarLong_represents (held : Represents cap bytes s) (input : UInt64) :
    Returns (s.writeVarLong input) (Represents cap (bytes ++ Base128.encode input.toNat)) :=
  writeVariable_represents (by decide) held input.toBitVec

theorem writeString_represents (held : Represents cap bytes s) (input : List UInt8) :
    Returns (s.writeString input)
      (Represents cap (bytes ++ (Base128.encode (UInt32.ofNat input.length).toNat ++ input))) := by
  refine (writeVarInt_represents held _).bind fun after prefixed => ?_
  rw [← List.append_assoc]
  exact writeBytes_represents prefixed input

/-- The answer of `ReadVarInt` to what a reader of five bytes makes of the content. -/
def varIntResult : Base128.Outcome → Errorable UInt32
  | .complete value _ => successErrorable (.ofNat value)
  | .incomplete => incompleteVarIntErrorable 0
  | .overlong value _ => invalidVarIntErrorable (.ofNat (value % 2 ^ 32))

/-- The same of `ReadVarLong`, for ten bytes. -/
def varLongResult : Base128.Outcome → Errorable UInt64
  | .complete value _ => successErrorable (.ofNat value)
  | .incomplete => incompleteVarLongErrorable 0
  | .overlong value _ => invalidVarLongErrorable (.ofNat (value % 2 ^ 64))

/-- Whatever is readable, `ReadVarInt` takes what a reader of five bytes takes. -/
theorem readVarInt_represents (held : Represents cap bytes s) :
    Returns s.readVarInt fun out => out.1 = varIntResult (Base128.decode 5 bytes) ∧
      Represents cap (Base128.decode 5 bytes).rest out.2 := by
  refine (readVariable_represents 0 held (by decide) (by decide)).bind ?_
  rintro ⟨left, after⟩ ⟨same, remaining⟩
  simp only at same remaining
  subst same
  cases found : Base128.decode 5 bytes with
  | complete value rest =>
    rw [found] at remaining
    refine (returns_ok _ _).mpr ⟨?_, remaining⟩
    simp [varIntResult, UInt32.ofNat]
  | incomplete =>
    rw [found] at remaining
    have empty : after.readableBytes = 0 := remaining.readable
    refine (returns_ok _ _).mpr ⟨?_, remaining⟩
    simp [varIntResult, empty]
  | overlong value rest =>
    rw [found] at remaining
    refine (returns_ok _ _).mpr ⟨?_, remaining⟩
    simp [varIntResult]

theorem readVarLong_represents (held : Represents cap bytes s) :
    Returns s.readVarLong fun out => out.1 = varLongResult (Base128.decode 10 bytes) ∧
      Represents cap (Base128.decode 10 bytes).rest out.2 := by
  refine (readVariable_represents 0 held (by decide) (by decide)).bind ?_
  rintro ⟨left, after⟩ ⟨same, remaining⟩
  simp only at same remaining
  subst same
  cases found : Base128.decode 10 bytes with
  | complete value rest =>
    rw [found] at remaining
    refine (returns_ok _ _).mpr ⟨?_, remaining⟩
    simp [varLongResult, UInt64.ofNat]
  | incomplete =>
    rw [found] at remaining
    have empty : after.readableBytes = 0 := remaining.readable
    refine (returns_ok _ _).mpr ⟨?_, remaining⟩
    simp [varLongResult, empty]
  | overlong value rest =>
    rw [found] at remaining
    refine (returns_ok _ _).mpr ⟨?_, remaining⟩
    simp [varLongResult]

/-! ### Bytes passed over -/

/-- `ReadByteUnsafe`, this many times. -/
def skim (s : ByteBufferImpl) : Nat → Exec ByteBufferImpl
  | 0 => pure s
  | count + 1 => do
    let (_, s) ← s.readByteUnsafe
    skim s count

theorem skim_represents {count : Nat} (held : Represents cap bytes s) (enough : count ≤ bytes.length) :
    Returns (skim s count) (Represents cap (bytes.drop count)) := by
  induction count generalizing bytes s with
  | zero => exact (returns_ok _ _).mpr held
  | succ count ih =>
    cases bytes with
    | nil => exact absurd enough (Nat.not_succ_le_zero count)
    | cons byte bytes =>
      obtain ⟨⟨read, after⟩, ran, -, remaining⟩ := readByteUnsafe_represents held
      simp only [skim, ran, ok_bind]
      exact ih remaining (Nat.le_of_succ_le_succ enough)

end ShipNet.ByteBufferImpl
