import ShipNet.ByteCounter
import ShipNet.RoundTrip

/-! The counter counts what the buffer stores: for every sequence of writes the
predicted size is the number of bytes produced. -/
namespace ShipNet
open Fallible ByteBuffer Base128

/-- A mask of the upper bits lets nothing through exactly from a small number. -/
theorem upper_bits_clear {width place : Nat} (input : BitVec width) :
    input &&& (BitVec.allOnes width <<< place) = 0 ↔ input.toNat < 2 ^ place := by
  have shifted : input.toNat < 2 ^ place ↔ input >>> place = 0 := by
    rw [← BitVec.toNat_inj, BitVec.toNat_ushiftRight, Nat.shiftRight_eq_div_pow]
    simp [Nat.div_eq_zero_iff]
  rw [shifted]
  constructor
  · intro masked
    ext index inside
    have bit := congrArg (fun vector => vector.getLsbD (place + index)) masked
    by_cases within : place + index < width
    · simpa [within] using bit
    · simp [BitVec.getLsbD_of_ge _ _ (Nat.le_of_not_lt within)]
  · intro masked
    ext index inside
    have bit := congrArg (fun vector => vector.getLsbD (index - place)) masked
    by_cases below : index < place
    · simp [below]
    · have same : place + (index - place) = index := by omega
      have clear : input[index] = false := by simpa [same, inside] using bit
      simp [clear]

theorem upper_bits_clear32 (input place : UInt32) (inside : place.toNat < 32) :
    input &&& ((0xFFFFFFFF : UInt32) <<< place) = 0 ↔ input.toNat < 2 ^ place.toNat := by
  have shift : (place.toBitVec % 32).toNat = place.toNat := Nat.mod_eq_of_lt inside
  rw [← UInt32.toBitVec_inj, UInt32.toBitVec_and, UInt32.toBitVec_shiftLeft, BitVec.shiftLeft_eq', shift]
  exact upper_bits_clear input.toBitVec

theorem upper_bits_clear64 (input place : UInt64) (inside : place.toNat < 64) :
    input &&& ((0xFFFFFFFFFFFFFFFF : UInt64) <<< place) = 0 ↔ input.toNat < 2 ^ place.toNat := by
  have shift : (place.toBitVec % 64).toNat = place.toNat := Nat.mod_eq_of_lt inside
  rw [← UInt64.toBitVec_inj, UInt64.toBitVec_and, UInt64.toBitVec_shiftLeft, BitVec.shiftLeft_eq', shift]
  exact upper_bits_clear input.toBitVec

theorem length_encode_small {number : Nat} (small : number < 2 ^ 7) : (encode number).length = 1 := by
  rw [encode_small small]
  rfl

theorem length_encode_between (count : Nat) {number : Nat} (large : ¬ number < 2 ^ (7 * (count + 1)))
    (small : number < 2 ^ (7 * (count + 2))) : (encode number).length = count + 2 := by
  rw [Nat.pow_mul] at large small
  have lower := lt_length_encode count number (Nat.le_of_not_lt large)
  have upper := length_encode_le (count + 1) number small
  omega

variable {number : Nat} {mask : Prop} [Decidable mask] {rest : UInt32}

/-- The first test of a cascade of masks. -/
private theorem cascade_first (clear : mask ↔ number < 2 ^ 7)
    (otherwise : ¬ number < 2 ^ 7 → rest.toNat = (encode number).length) :
    (if mask then 1 else rest).toNat = (encode number).length := by
  by_cases small : number < 2 ^ 7
  · rw [if_pos (clear.mpr small), length_encode_small small]
    rfl
  · rw [if_neg (fun passed => small (clear.mp passed))]
    exact otherwise small

/-- Each further one. -/
private theorem cascade_next (count : Nat) {answer : UInt32} (same : answer.toNat = count + 2)
    (large : ¬ number < 2 ^ (7 * (count + 1))) (clear : mask ↔ number < 2 ^ (7 * (count + 2)))
    (otherwise : ¬ number < 2 ^ (7 * (count + 2)) → rest.toNat = (encode number).length) :
    (if mask then answer else rest).toNat = (encode number).length := by
  by_cases small : number < 2 ^ (7 * (count + 2))
  · rw [if_pos (clear.mpr small), length_encode_between count large small, same]
  · rw [if_neg (fun passed => small (clear.mp passed))]
    exact otherwise small

theorem varIntBytes_eq (input : UInt32) : (varIntBytes input).toNat = (encode input.toNat).length := by
  have bound : input.toNat < 2 ^ 35 := Nat.lt_trans input.toNat_lt (by decide)
  unfold varIntBytes
  refine cascade_first (upper_bits_clear32 input 7 (by decide)) fun one => ?_
  refine cascade_next 0 rfl one (upper_bits_clear32 input 14 (by decide)) fun two => ?_
  refine cascade_next 1 rfl two (upper_bits_clear32 input 21 (by decide)) fun three => ?_
  refine cascade_next 2 rfl three (upper_bits_clear32 input 28 (by decide)) fun four => ?_
  rw [length_encode_between 3 four bound]
  rfl

theorem varLongBytes_eq (input : UInt64) : (varLongBytes input).toNat = (encode input.toNat).length := by
  have bound : input.toNat < 2 ^ 70 := Nat.lt_trans input.toNat_lt (by decide)
  unfold varLongBytes
  refine cascade_first (upper_bits_clear64 input 7 (by decide)) fun one => ?_
  refine cascade_next 0 rfl one (upper_bits_clear64 input 14 (by decide)) fun two => ?_
  refine cascade_next 1 rfl two (upper_bits_clear64 input 21 (by decide)) fun three => ?_
  refine cascade_next 2 rfl three (upper_bits_clear64 input 28 (by decide)) fun four => ?_
  refine cascade_next 3 rfl four (upper_bits_clear64 input 35 (by decide)) fun five => ?_
  refine cascade_next 4 rfl five (upper_bits_clear64 input 42 (by decide)) fun six => ?_
  refine cascade_next 5 rfl six (upper_bits_clear64 input 49 (by decide)) fun seven => ?_
  refine cascade_next 6 rfl seven (upper_bits_clear64 input 56 (by decide)) fun eight => ?_
  refine cascade_next 7 rfl eight (upper_bits_clear64 input 63 (by decide)) fun nine => ?_
  rw [length_encode_between 8 nine bound]
  rfl

namespace WriteOperation
open ByteBufferImpl

/-- A transfer moves at least one byte, no more than the scratch array holds and
no more than are there, out of a buffer in order. -/
def Transfers : WriteOperation → Prop
  | bytesFrom input size =>
    input.WellFormed ∧ 0 < size ∧ size ≤ maxPacketSize ∧ size ≤ input.readableBytes
  | byteArray input =>
    input.WellFormed ∧ 0 < input.readableBytes ∧ input.readableBytes ≤ maxPacketSize
  | boolean _ | byte _ | short _ | medium _ | int _ | varInt _ | long _ | varLong _ | uuid _
  | uuidIntArray _ | double _ | float _ | angle _ | string _ | bytes _ => True

variable {s : ByteBufferImpl} {cap : Nat} {bytes : List UInt8}

private theorem writeUUIDIntArray_represents (held : Represents cap bytes s) (input : UUID) :
    Returns (s.writeUUIDIntArray input) fun after =>
      ∃ added, Represents cap (bytes ++ added) after ∧ added.length = uuidSize := by
  refine (writeShifted_represents held _ 4).bind fun after first => ?_
  refine (writeShifted_represents first _ 4).bind fun after second => ?_
  refine (writeShifted_represents second _ 4).bind fun after third => ?_
  refine (writeShifted_represents third _ 4).mono fun after last => ?_
  rw [List.append_assoc, List.append_assoc, List.append_assoc] at last
  exact ⟨_, last, by simp [uuidSize, longSize]⟩

private theorem writeBytesFrom_appends {input : ByteBufferImpl} {size : Nat}
    (held : Represents cap bytes s) (scratch : Block UInt8) (source : input.WellFormed)
    (positive : 0 < size) (bounded : size ≤ maxPacketSize) (enough : size ≤ input.readableBytes) :
    Returns (s.writeBytesFrom scratch input size) fun out =>
      ∃ added, Represents cap (bytes ++ added) out.1 ∧ added.length = size := by
  have length := source.length_content
  have moved := writeBytesFrom_represents held scratch source.represents positive bounded
    (length.symm ▸ enough)
  refine moved.mono fun out after => ⟨input.content.take size, after.1, ?_⟩
  rw [List.length_take, length]
  omega

/-- Without a transfer: what the call appends and what the counter adds. -/
private theorem returns_with {code : Exec ByteBufferImpl} {added : List UInt8} {c counted : ByteCounter}
    (scratch : Block UInt8) (appends : Returns code (Represents cap (bytes ++ added)))
    (agree : counted.writerIndex = c.writerIndex + added.length) :
    Returns (do return (← code, scratch)) fun out : ByteBufferImpl × Block UInt8 =>
      ∃ added, Represents cap (bytes ++ added) out.1 ∧
        counted.writerIndex = c.writerIndex + added.length := by
  obtain ⟨after, ran, held⟩ := appends
  rw [ran]
  exact (returns_ok _ _).mpr ⟨added, held, agree⟩

/-- Each call appends as many bytes to a buffer as a counter adds for it. -/
theorem perform_represents (held : Represents cap bytes s) (scratch : Block UInt8)
    {operation : WriteOperation} (transfers : operation.Transfers) (c : ByteCounter) :
    Returns (operation.perform s scratch) fun out =>
      ∃ added, Represents cap (bytes ++ added) out.1 ∧
        (operation.count c).writerIndex = c.writerIndex + added.length := by
  have fixed (number size : Nat) (index : Nat) :
      index + size = index + (BigEndian.encode number size).length := by
    rw [BigEndian.length_encode]
  cases operation with
  | boolean input => exact returns_with scratch (writeByte_represents held _) rfl
  | byte input => exact returns_with scratch (writeByte_represents held _) rfl
  | short input => exact returns_with scratch (writeShifted_represents held input.toBitVec 2) (fixed _ 2 _)
  | medium input => exact returns_with scratch (writeShifted_represents held input.toBitVec 3) (fixed _ 3 _)
  | int input => exact returns_with scratch (writeShifted_represents held input.toBitVec 4) (fixed _ 4 _)
  | varInt input =>
    exact returns_with scratch (writeVarInt_represents held input)
      (congrArg (c.writerIndex + ·) (varIntBytes_eq input))
  | long input => exact returns_with scratch (writeShifted_represents held input.toBitVec 8) (fixed _ 8 _)
  | varLong input =>
    exact returns_with scratch (writeVarLong_represents held input)
      (congrArg (c.writerIndex + ·) (varLongBytes_eq input))
  | uuid input =>
    refine returns_with scratch (writeUUID_represents held input) ?_
    simp [count, ByteCounter.writeUUID, Kind.encode, uuidSize, longSize]
  | uuidIntArray input =>
    refine (writeUUIDIntArray_represents held input).bind ?_
    rintro after ⟨added, appended, length⟩
    refine (returns_ok _ _).mpr ⟨added, appended, ?_⟩
    rw [length]
    rfl
  | double input =>
    exact returns_with scratch (writeShifted_represents held input.toBits.toBitVec 8) (fixed _ 8 _)
  | float input =>
    exact returns_with scratch (writeShifted_represents held input.toBits.toBitVec 4) (fixed _ 4 _)
  | angle input => exact returns_with scratch (writeByte_represents held _) rfl
  | string input =>
    refine returns_with scratch (writeString_represents held input) ?_
    rw [List.length_append, ← varIntBytes_eq, ← Nat.add_assoc]
    rfl
  | bytes input => exact returns_with scratch (writeBytes_represents held input) rfl
  | bytesFrom input size =>
    obtain ⟨source, positive, bounded, enough⟩ := transfers
    refine (writeBytesFrom_appends held scratch source positive bounded enough).bind ?_
    rintro ⟨after, scratch, left⟩ ⟨added, appended, length⟩
    refine (returns_ok _ _).mpr ⟨added, appended, ?_⟩
    rw [length]
    rfl
  | byteArray input =>
    obtain ⟨source, positive, bounded⟩ := transfers
    obtain ⟨prefixed, wrote, announced⟩ := writeVarInt_represents held (.ofNat input.readableBytes)
    obtain ⟨⟨after, scratch', left⟩, moved, added, appended, length⟩ :=
      writeBytesFrom_appends announced scratch source positive bounded (Nat.le_refl _)
    simp only [perform, writeByteArray, wrote, moved, ok_bind, pure_is_ok, returns_ok]
    rw [List.append_assoc] at appended
    refine ⟨_, appended, ?_⟩
    rw [List.length_append, ← varIntBytes_eq, length, ← Nat.add_assoc]
    rfl

theorem performAll_represents (held : Represents cap bytes s) (scratch : Block UInt8)
    {operations : List WriteOperation} (transfers : ∀ operation ∈ operations, operation.Transfers)
    (c : ByteCounter) :
    Returns (performAll s scratch operations) fun out =>
      ∃ added, Represents cap (bytes ++ added) out.1 ∧
        (countAll c operations).writerIndex = c.writerIndex + added.length := by
  induction operations generalizing s bytes scratch c with
  | nil => exact (returns_ok _ _).mpr ⟨[], by simpa using held, rfl⟩
  | cons first later ih =>
    refine (perform_represents held scratch (transfers first List.mem_cons_self) c).bind ?_
    rintro ⟨after, scratch⟩ ⟨front, appended, counted⟩
    refine (ih appended scratch (fun operation member => transfers operation
      (List.mem_cons_of_mem _ member)) (first.count c)).mono ?_
    rintro ⟨final, scratch⟩ ⟨back, appended, total⟩
    rw [List.append_assoc] at appended
    refine ⟨front ++ back, appended, ?_⟩
    rw [List.length_append, ← Nat.add_assoc, ← counted]
    exact total

/-- A counter ends where the bytes of a buffer end, and `Size` of a message is
the number of bytes of its `Write`, as far as `uint32_t` can tell. -/
theorem size_prediction_agrees {Version : Type} (message : Serializable Version) (version : Version)
    (heap : Nat → Block UInt8) (cap : Nat) (positive : 0 < cap) (scratch : Block UInt8)
    (transfers : ∀ operation ∈ message.write version, operation.Transfers) :
    ∃ final scratch', performAll (new heap cap) scratch (message.write version) = .ok (final, scratch') ∧
      (countAll {} (message.write version)).writerIndex = final.readableBytes ∧
      final.content.length = final.readableBytes ∧
      (message.size version).toNat = final.readableBytes % 2 ^ 32 := by
  obtain ⟨⟨final, scratch'⟩, ran, added, held, counted⟩ :=
    performAll_represents (represents_new heap positive) scratch transfers {}
  rw [List.nil_append] at held
  have readable := held.readable
  have same : (countAll {} (message.write version)).writerIndex = final.readableBytes := by
    rw [counted, readable]
    exact Nat.zero_add _
  refine ⟨final, scratch', ran, same, held.wellFormed.length_content, ?_⟩
  rw [Serializable.size, same, UInt32.toNat_ofNat']

/-- A message with two transfers, on segments of two bytes. -/
theorem size_prediction_agrees_small_segments : ∃ first second final scratch',
    (new (fun _ _ => 0) 4).writeBytes [1, 2, 3] = .ok first ∧
    (new (fun _ _ => 0) 4).writeBytes [4, 5] = .ok second ∧
    performAll (new (fun _ _ => 0) 2) (fun _ => 0)
      [.boolean true, .varInt 300, .string [104, 105], .bytesFrom first 2, .byteArray second] =
        .ok (final, scratch') ∧ final.readableBytes = 11 := by
  have capacity : 0 < 4 := by decide
  obtain ⟨first, filledFirst, heldFirst⟩ :=
    writeBytes_represents (represents_new (fun _ _ => 0) capacity) [1, 2, 3]
  obtain ⟨second, filledSecond, heldSecond⟩ :=
    writeBytes_represents (represents_new (fun _ _ => 0) capacity) [4, 5]
  have three : first.readableBytes = 3 := heldFirst.readable
  have two : second.readableBytes = 2 := heldSecond.readable
  obtain ⟨final, scratch', ran, counted, -⟩ := size_prediction_agrees
    ⟨fun _ : Unit =>
      [.boolean true, .varInt 300, .string [104, 105], .bytesFrom first 2, .byteArray second]⟩
    () (fun _ _ => 0) 2 (by decide) (fun _ => 0)
    (by simp [Transfers, heldFirst.wellFormed, heldSecond.wellFormed, three, two, maxPacketSize])
  refine ⟨first, second, final, scratch', filledFirst, filledSecond, ran, ?_⟩
  rw [← counted]
  simp only [countAll, count, ByteCounter.writeByteArray, two, List.foldl]
  rfl

end WriteOperation

end ShipNet
