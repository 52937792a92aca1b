import ShipNet.ReachableBuffer
import ShipNet.RoundTrip

/-! The two codecs of a `UUID`, as two words of 64 bits and as four of 32. What they write
is the same. The reader of four words puts the first of them where the second one is. -/
namespace ShipNet.ByteBufferImpl
open Fallible

variable {s : ByteBufferImpl} {cap : Nat} {bytes rest : List UInt8}

/-! ### The writers -/

theorem encode_halves (number : UInt64) :
    BigEndian.encode number.toNat 8 =
      BigEndian.encode (number >>> 32).toUInt32.toNat 4 ++ BigEndian.encode number.toUInt32.toNat 4 := by
  have high : (number >>> 32).toUInt32.toNat = number.toNat / 256 ^ 4 % 256 ^ 4 := by
    rw [UInt64.toNat_toUInt32, UInt64.toNat_shiftRight, Nat.shiftRight_eq_div_pow]
    rfl
  have low : number.toUInt32.toNat = number.toNat % 256 ^ 4 := UInt64.toNat_toUInt32 number
  rw [high, low, BigEndian.encode_mod _ _ (Nat.le_refl 4), BigEndian.encode_mod _ _ (Nat.le_refl 4)]
  exact BigEndian.encode_add number.toNat 4 4

theorem writers_same : writeUUID = writeUUIDIntArray := by
  funext s input
  simp only [writeUUID, writeUUIDIntArray, writeLong, writeInt, writeShifted_eq_writeEach, UInt64.toNat_toBitVec,
    UInt32.toNat_toBitVec, encode_halves, writeEach_append, bind_assoc]

/-! ### The readers -/

theorem masked_word (word : UInt32) : (word.toUInt64 &&& 0xFFFFFFFF).toNat = word.toNat := by
  rw [UInt64.toNat_and, UInt32.toNat_toUInt64]
  exact (Nat.and_two_pow_sub_one_eq_mod word.toNat 32).trans (Nat.mod_eq_of_lt word.toNat_lt)

theorem words_beside (high low : UInt32) :
    (high.toUInt64 <<< 32 ||| (low.toUInt64 &&& 0xFFFFFFFF)).toNat = high.toNat * 2 ^ 32 + low.toNat := by
  have small := high.toNat_lt
  have fits : high.toNat * 2 ^ 32 + low.toNat < 2 ^ 64 := by
    have lowSmall := low.toNat_lt
    omega
  have shifted : (high.toUInt64 <<< 32).toNat = high.toNat * 2 ^ 32 % 2 ^ 64 := by
    rw [UInt64.toNat_shiftLeft, UInt32.toNat_toUInt64, Nat.shiftLeft_eq]
    rfl
  rw [UInt64.toNat_or, masked_word, shifted, Nat.or_comm, or_shifted _ low.toNat_lt (by decide), Nat.add_comm,
    Nat.mod_eq_of_lt fits]

theorem words_over (high low : UInt32) :
    (high.toUInt64 ||| (low.toUInt64 &&& 0xFFFFFFFF)).toNat = high.toNat ||| low.toNat := by
  rw [UInt64.toNat_or, masked_word, UInt32.toNat_toUInt64]

/-- The word in front is lost exactly if it is not zero. -/
theorem words_over_iff (high low : UInt32) :
    (high.toUInt64 ||| (low.toUInt64 &&& 0xFFFFFFFF) : UInt64) =
      high.toUInt64 <<< 32 ||| (low.toUInt64 &&& 0xFFFFFFFF) ↔ high = 0 := by
  rw [← UInt64.toNat_inj, words_over, words_beside]
  constructor
  · intro same
    have small : high.toNat ||| low.toNat < 2 ^ 32 := Nat.or_lt_two_pow high.toNat_lt low.toNat_lt
    exact UInt32.toNat_inj.mp (show high.toNat = 0 by omega)
  · rintro rfl
    simp

/-- The word of four bytes, the most significant first. -/
def word (bytes : List UInt8) : UInt32 := .ofNat (BigEndian.decode 0 bytes)

theorem toNat_word {bytes : List UInt8} (length : bytes.length = 4) : (word bytes).toNat = BigEndian.decode 0 bytes :=
  UInt32.toNat_ofNat_of_lt' (Nat.lt_of_lt_of_le (BigEndian.decode_lt bytes) (by rw [length]; decide))

theorem readInt_represents (held : Represents cap (bytes ++ rest) s) (length : bytes.length = 4) :
    Returns s.readInt fun out => out.1 = successErrorable (word bytes) ∧ Represents cap rest out.2 :=
  readFixed_represents held length (by decide)

theorem readUUIDIntArray_represents {first second third fourth : List UInt8}
    (held : Represents cap (first ++ (second ++ (third ++ (fourth ++ rest)))) s) (firstLength : first.length = 4)
    (secondLength : second.length = 4) (thirdLength : third.length = 4) (fourthLength : fourth.length = 4) :
    Returns s.readUUIDIntArray fun out =>
      out.1 = successErrorable
        ⟨(word first).toUInt64 ||| ((word second).toUInt64 &&& 0xFFFFFFFF),
          (word third).toUInt64 <<< 32 ||| ((word fourth).toUInt64 &&& 0xFFFFFFFF)⟩ ∧
        Represents cap rest out.2 := by
  refine (readInt_represents held firstLength).bind ?_
  rintro ⟨result, after⟩ ⟨rfl, held⟩
  simp only [success_isSuccess, Bool.not_true, Bool.false_eq_true, if_false]
  refine (readInt_represents held secondLength).bind ?_
  rintro ⟨result, after⟩ ⟨rfl, held⟩
  simp only [success_isSuccess, Bool.not_true, Bool.false_eq_true, if_false]
  refine (readInt_represents held thirdLength).bind ?_
  rintro ⟨result, after⟩ ⟨rfl, held⟩
  simp only [success_isSuccess, Bool.not_true, Bool.false_eq_true, if_false]
  refine (readInt_represents held fourthLength).bind ?_
  rintro ⟨result, after⟩ ⟨rfl, held⟩
  exact (returns_ok _ _).mpr ⟨rfl, held⟩

/-- Eight bytes as one word, and as two beside each other. -/
theorem halves_beside {high low : List UInt8} (highLength : high.length = 4) (lowLength : low.length = 4) :
    UInt64.ofNat (BigEndian.decode 0 (high ++ low)) =
      (word high).toUInt64 <<< 32 ||| ((word low).toUInt64 &&& 0xFFFFFFFF) := by
  have small : BigEndian.decode 0 (high ++ low) < 2 ^ 64 :=
    Nat.lt_of_lt_of_le (BigEndian.decode_lt _) (by rw [List.length_append, highLength, lowLength]; decide)
  rw [← UInt64.toNat_inj, words_beside, toNat_word highLength, toNat_word lowLength, UInt64.toNat_ofNat_of_lt' small,
    BigEndian.decode_append, lowLength]
  rfl

/-! ### One codec for the other -/

/-- Both readers succeed on what is readable, with the same result, and take the same bytes. -/
def ReadersAgree (s : ByteBufferImpl) : Prop :=
  ∃ uuid whole words, s.readUUID = .ok (successErrorable uuid, whole) ∧
    s.readUUIDIntArray = .ok (successErrorable uuid, words) ∧
    whole.content = s.content.drop 16 ∧ words.content = s.content.drop 16

/-- What is written is read back. -/
def Inverts (write : ByteBufferImpl → UUID → Exec ByteBufferImpl)
    (read : ByteBufferImpl → Exec (Errorable UUID × ByteBufferImpl)) (s : ByteBufferImpl) (uuid : UUID) : Prop :=
  ∃ written after, write s uuid = .ok written ∧ read written = .ok (successErrorable uuid, after)

theorem word_eq_zero_iff (length : bytes.length = 4) : word bytes = 0 ↔ bytes = [0, 0, 0, 0] := by
  constructor
  · intro zero
    have none := toNat_word length
    rw [zero] at none
    have same := BigEndian.encode_decode bytes
    rw [length, ← none] at same
    exact same.symm
  · rintro rfl
    rfl

theorem four_words (enough : 16 ≤ bytes.length) : ∃ first second third fourth rest : List UInt8,
    bytes = first ++ (second ++ (third ++ (fourth ++ rest))) ∧
      first.length = 4 ∧ second.length = 4 ∧ third.length = 4 ∧ fourth.length = 4 := by
  have piece (offset : Nat) : (bytes.drop offset).take 4 ++ bytes.drop (offset + 4) = bytes.drop offset := by
    rw [← List.drop_drop, List.take_append_drop]
  refine ⟨bytes.take 4, (bytes.drop 4).take 4, (bytes.drop 8).take 4, (bytes.drop 12).take 4, bytes.drop 16, ?_, ?_⟩
  · rw [piece 12, piece 8, piece 4, List.take_append_drop]
  · simp only [List.length_take, List.length_drop]
    omega

theorem readersAgree_iff (held : Represents cap bytes s) (enough : 16 ≤ bytes.length) :
    ReadersAgree s ↔ bytes.take 4 = [0, 0, 0, 0] := by
  obtain ⟨first, second, third, fourth, rest, rfl, firstLength, secondLength, thirdLength, fourthLength⟩ :=
    four_words enough
  have behind : s.content.drop 16 = rest := by
    have front : (first ++ second ++ third ++ fourth).length = 16 := by simp [*]
    rw [held.content, ← front]
    simp only [← List.append_assoc, List.drop_left]
  obtain ⟨⟨result, words⟩, ranWords, rfl, remaining⟩ :=
    readUUIDIntArray_represents held firstLength secondLength thirdLength fourthLength
  have joined : Represents cap ((first ++ second) ++ (third ++ fourth) ++ rest) s := by
    simpa only [List.append_assoc] using held
  obtain ⟨⟨result, whole⟩, ranWhole, rfl, left⟩ := readUUID_represents joined
    (by rw [List.length_append, firstLength, secondLength]) (by rw [List.length_append, thirdLength, fourthLength])
  rw [halves_beside firstLength secondLength, halves_beside thirdLength fourthLength] at ranWhole
  rw [List.take_left' firstLength, ← word_eq_zero_iff firstLength, ← words_over_iff (word first) (word second)]
  constructor
  · rintro ⟨uuid, whole', words', ranWhole', ranWords', -⟩
    cases ranWhole.symm.trans ranWhole'
    exact congrArg (fun out => out.1.value.mostSignificant) (Except.ok.inj (ranWords.symm.trans ranWords'))
  · intro same
    rw [same] at ranWords
    exact ⟨_, whole, words, ranWhole, ranWords, left.content.trans behind.symm, remaining.content.trans behind.symm⟩

theorem halves_of_number (number : UInt64) :
    ((number >>> 32).toUInt32.toUInt64 <<< 32 ||| (number.toUInt32.toUInt64 &&& 0xFFFFFFFF) : UInt64) = number := by
  have bound := number.toNat_lt
  have high : (number >>> 32).toNat = number.toNat / 2 ^ 32 := by
    rw [UInt64.toNat_shiftRight, Nat.shiftRight_eq_div_pow]
    rfl
  rw [← UInt64.toNat_inj, words_beside, UInt64.toNat_toUInt32, UInt64.toNat_toUInt32, high]
  omega

theorem high_half_eq_zero_iff (number : UInt64) : (number >>> 32).toUInt32 = 0 ↔ number.toNat < 2 ^ 32 := by
  have bound := number.toNat_lt
  have high : (number >>> 32).toUInt32.toNat = number.toNat / 2 ^ 32 % 2 ^ 32 := by
    rw [UInt64.toNat_toUInt32, UInt64.toNat_shiftRight, Nat.shiftRight_eq_div_pow]
    rfl
  rw [← UInt32.toNat_inj, high, UInt32.toNat_zero]
  omega

theorem word_encode (number : UInt32) : word (BigEndian.encode number.toNat 4) = number := by
  have bound : number.toNat < 256 ^ 4 := number.toNat_lt
  rw [word, BigEndian.decode_encode, Nat.mod_eq_of_lt bound, UInt32.ofNat_toNat]

/-- What is left of a `UUID` that is read as four words: of its first half, the words lie
over each other. -/
theorem readUUIDIntArray_encoded (uuid : UUID) (held : Represents cap (Kind.uuid.encode uuid) s) :
    Returns s.readUUIDIntArray fun out =>
      out.1 = successErrorable
        ⟨(uuid.mostSignificant >>> 32).toUInt32.toUInt64 |||
          (uuid.mostSignificant.toUInt32.toUInt64 &&& 0xFFFFFFFF), uuid.leastSignificant⟩ := by
  have words : Represents cap (BigEndian.encode (uuid.mostSignificant >>> 32).toUInt32.toNat 4 ++
      (BigEndian.encode uuid.mostSignificant.toUInt32.toNat 4 ++
        (BigEndian.encode (uuid.leastSignificant >>> 32).toUInt32.toNat 4 ++
          (BigEndian.encode uuid.leastSignificant.toUInt32.toNat 4 ++ [])))) s := by
    simpa only [Kind.encode, encode_halves, List.append_assoc, List.append_nil] using held
  have read := readUUIDIntArray_represents words (BigEndian.length_encode _ _) (BigEndian.length_encode _ _)
    (BigEndian.length_encode _ _) (BigEndian.length_encode _ _)
  rw [word_encode, word_encode, word_encode, word_encode, halves_of_number uuid.leastSignificant] at read
  exact read.mono fun _ out => out.1

theorem readUUID_inverts (held : Represents cap [] s) (uuid : UUID) : Inverts writeUUID readUUID s uuid := by
  obtain ⟨written, wrote, encoded⟩ := writeUUID_represents held uuid
  obtain ⟨⟨result, after⟩, ran, rfl, -⟩ := read_represents .uuid uuid trivial (by rwa [List.append_nil])
  exact ⟨written, after, wrote, ran⟩

theorem readUUIDIntArray_inverts_iff (held : Represents cap [] s) (uuid : UUID) :
    Inverts writeUUID readUUIDIntArray s uuid ↔ uuid.mostSignificant.toNat < 2 ^ 32 := by
  obtain ⟨written, wrote, encoded⟩ := writeUUID_represents held uuid
  obtain ⟨⟨result, after⟩, ran, rfl⟩ := readUUIDIntArray_encoded uuid encoded
  rw [← high_half_eq_zero_iff, ← words_over_iff _ uuid.mostSignificant.toUInt32, halves_of_number]
  constructor
  · rintro ⟨written', after', wrote', ran'⟩
    cases wrote.symm.trans wrote'
    exact congrArg (fun out => out.1.value.mostSignificant) (Except.ok.inj (ran.symm.trans ran'))
  · intro same
    rw [same] at ran
    exact ⟨written, after, wrote, ran⟩

/-- Both writers append the same sixteen bytes. On sixteen bytes the readers agree
exactly if the first four are zero; `ReadUUID` inverts both writers, `ReadUUIDIntArray`
exactly for a `UUID` of which they are. -/
theorem uuid_codecs_interchange_iff (positive : 0 < cap) (reachable : Reachable cap s) (uuid : UUID) :
    s.writeUUID uuid = s.writeUUIDIntArray uuid ∧
    Returns (s.writeUUID uuid) (fun after => ∃ added, added.length = 16 ∧ after.content = s.content ++ added) ∧
    (16 ≤ s.readableBytes → (ReadersAgree s ↔ s.content.take 4 = [0, 0, 0, 0])) ∧
    (s.content = [] →
      Inverts writeUUID readUUID s uuid ∧ Inverts writeUUIDIntArray readUUID s uuid ∧
      (Inverts writeUUID readUUIDIntArray s uuid ↔ uuid.mostSignificant.toNat < 2 ^ 32) ∧
      (Inverts writeUUIDIntArray readUUIDIntArray s uuid ↔ uuid.mostSignificant.toNat < 2 ^ 32)) := by
  have held := reachable.represents positive
  refine ⟨by rw [writers_same], ?_, ?_, ?_⟩
  · refine (writeUUID_represents held uuid).mono fun after encoded => ⟨_, ?_, encoded.content⟩
    simp [Kind.encode]
  · intro enough
    rw [held.readable] at enough
    exact readersAgree_iff held enough
  · intro empty
    rw [empty] at held
    rw [← writers_same]
    have inverts := readUUID_inverts held uuid
    have invertsIff := readUUIDIntArray_inverts_iff held uuid
    exact ⟨inverts, inverts, invertsIff, invertsIff⟩

/-- A `UUID` whose first four bytes are zero, in a fresh buffer. -/
theorem uuid_codecs_interchange_small :
    Inverts writeUUIDIntArray readUUIDIntArray (new (fun _ _ => 0) 5) ⟨7, 0x8000000000000000⟩ := by
  have fresh : Reachable 5 (new (fun _ _ => 0) 5) := .new _
  obtain ⟨-, -, -, inverts⟩ := uuid_codecs_interchange_iff (by decide) fresh ⟨7, 0x8000000000000000⟩
  exact (inverts rfl).2.2.2.mpr (by decide)

/-- The bit of the word in front is not read back there. -/
theorem uuid_with_word_in_front_is_not_read_back :
    ¬ Inverts writeUUIDIntArray readUUIDIntArray (new (fun _ _ => 0) 5) ⟨0x100000000, 0⟩ := by
  rw [← writers_same, readUUIDIntArray_inverts_iff (represents_new _ (by decide))]
  decide

end ShipNet.ByteBufferImpl
