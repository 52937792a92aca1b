import ShipNet.ReachableBuffer
import ShipNet.RoundTrip

/-! Reads that are refused for want of bytes. One that looks at the count before it reads
leaves them all; one that is made of several reads has taken what the first of them took. -/
namespace ShipNet.ByteBufferImpl
open Fallible

/-- A read, with what it is given to read into and the bound that it is given. -/
inductive ReadOperation where
  | boolean
  | byte
  | short
  | medium
  | int
  | varInt
  | long
  | varLong
  | uuid
  | uuidIntArray
  | bytes (output : OutputArray) (size : Nat)
  | string (fresh : Block UInt8) (maxSize : UInt32)
  | byteArray (fresh : Block UInt8) (heap : Nat → Block UInt8) (maxSize : UInt32)

/-- Whether a read succeeds, and the buffer after it. -/
def outcome {T : Type} (read : Exec (Errorable T × ByteBufferImpl)) : Exec (Bool × ByteBufferImpl) :=
  read.map fun (result, s) => (result.isSuccess, s)

namespace ReadOperation

def perform (s : ByteBufferImpl) : ReadOperation → Exec (Bool × ByteBufferImpl)
  | boolean => outcome s.readBoolean
  | byte => outcome s.readByte
  | short => outcome s.readShort
  | medium => outcome s.readMedium
  | int => outcome s.readInt
  | varInt => outcome s.readVarInt
  | long => outcome s.readLong
  | varLong => outcome s.readVarLong
  | uuid => outcome s.readUUID
  | uuidIntArray => outcome s.readUUIDIntArray
  | bytes output size => (s.readBytes output size).map fun (result, _, s) => (result.isSuccess, s)
  | string fresh maxSize => outcome (s.readString fresh maxSize)
  | byteArray fresh heap maxSize => outcome (s.readByteArrayWithin fresh heap maxSize)

/-- The length in front of some bytes is not all there, or it is within the bound and the
bytes are not all there. -/
def LacksPrefixed (maxSize : UInt32) (content : List UInt8) : Prop :=
  match Base128.decode 5 content with
  | .complete length rest => UInt32.ofNat length ≤ maxSize ∧ rest.length < (UInt32.ofNat length).toNat
  | .incomplete => True
  | .overlong _ _ => False

/-- The content ends before what is read does. -/
def Lacks (content : List UInt8) : ReadOperation → Prop
  | boolean | byte => content.length < 1
  | short => content.length < 2
  | medium => content.length < 3
  | int => content.length < 4
  | long => content.length < 8
  | uuid | uuidIntArray => content.length < 16
  | varInt => Base128.decode 5 content = .incomplete
  | varLong => Base128.decode 10 content = .incomplete
  | bytes _ size => content.length < size
  | string _ maxSize | byteArray _ _ maxSize => LacksPrefixed maxSize content

/-- How many bytes the first of its reads asks for. -/
def firstPart : ReadOperation → Nat
  | boolean | byte | varInt | varLong | string _ _ | byteArray _ _ _ => 1
  | short => 2
  | medium => 3
  | int | uuidIntArray => 4
  | long | uuid => 8
  | bytes _ size => size

/-- The read is refused, and all bytes are still there. -/
def Atomic (operation : ReadOperation) (s : ByteBufferImpl) : Prop :=
  ∃ after, operation.perform s = .ok (false, after) ∧ after.content = s.content ∧ after.readableBytes = s.readableBytes

end ReadOperation

/-! ### What is left of the bytes -/

variable {s : ByteBufferImpl} {cap : Nat} {bytes : List UInt8}

/-- The read is refused. All bytes are left if the first part could not be read, and
fewer otherwise. -/
def Refused (cap : Nat) (bytes : List UInt8) (firstPart : Nat) (out : Bool × ByteBufferImpl) : Prop :=
  out.1 = false ∧ ∃ left, Represents cap left out.2 ∧ (bytes.length < firstPart → left = bytes) ∧
    (firstPart ≤ bytes.length → left.length < bytes.length)

theorem refused_at_once {firstPart : Nat} (held : Represents cap bytes s) (short : bytes.length < firstPart) :
    Refused cap bytes firstPart (false, s) :=
  ⟨rfl, bytes, held, fun _ => rfl, fun enough => absurd short (Nat.not_lt.mpr enough)⟩

theorem refused_later {firstPart : Nat} {left : List UInt8} (held : Represents cap left s)
    (enough : firstPart ≤ bytes.length) (fewer : left.length < bytes.length) : Refused cap bytes firstPart (false, s) :=
  ⟨rfl, left, held, fun short => absurd short (Nat.not_lt.mpr enough), fun _ => fewer⟩

theorem readFixed_refused {T : Type} {width count : Nat} {incomplete : UInt64 → Errorable T}
    {convert : BitVec width → T} (held : Represents cap bytes s) (short : bytes.length < count) :
    s.readFixed count incomplete convert = .ok (incomplete (.ofNat s.readableBytes), s) := by
  rw [readFixed, if_pos (by rwa [held.readable]), pure_is_ok]

theorem readFixed_takes {T : Type} {width count : Nat} {incomplete : UInt64 → Errorable T}
    {convert : BitVec width → T} (held : Represents cap bytes s) (enough : count ≤ bytes.length)
    (room : 256 ^ count ≤ 2 ^ width) :
    Returns (s.readFixed count incomplete convert) fun out =>
      out.1.isSuccess = true ∧ Represents cap (bytes.drop count) out.2 := by
  rw [← List.take_append_drop count bytes] at held
  refine (readFixed_represents held (List.length_take_of_le enough) room).mono ?_
  rintro out ⟨same, remaining⟩
  exact ⟨by rw [same]; rfl, remaining⟩

/-- Reads of a fixed width leave all bytes where they are refused. -/
theorem readFixed_lacking {T : Type} {width count : Nat} {incomplete : UInt64 → Errorable T}
    {convert : BitVec width → T} (held : Represents cap bytes s) (short : bytes.length < count)
    (error : ∀ argument, (incomplete argument).isSuccess = false) :
    Returns (outcome (s.readFixed count incomplete convert)) (Refused cap bytes count) := by
  rw [readFixed_refused held short]
  simp only [outcome, Except.map, error, returns_ok]
  exact refused_at_once held short

theorem readUUID_lacking (held : Represents cap bytes s) (short : bytes.length < 16) :
    Returns (outcome s.readUUID) (Refused cap bytes 8) := by
  by_cases first : bytes.length < 8
  · have refused : s.readLong = _ := readFixed_refused held first
    simp only [readUUID, refused, ok_bind]
    exact (returns_ok _ _).mpr (refused_at_once held first)
  · obtain ⟨⟨mostSignificant, after⟩, ran, success, held⟩ :
        Returns s.readLong _ := readFixed_takes held (Nat.le_of_not_lt first) (by decide)
    have second : (bytes.drop 8).length < 8 := by
      rw [List.length_drop]
      omega
    have refused : after.readLong = _ := readFixed_refused held second
    simp only at success
    simp only [readUUID, ran, ok_bind, success, refused, Bool.not_true, Bool.false_eq_true, if_false]
    exact (returns_ok _ _).mpr (refused_later held (Nat.le_of_not_lt first) (by omega))

/-- A word is refused, or taken. -/
theorem readInt_either (held : Represents cap bytes s) :
    (bytes.length < 4 ∧ ∃ argument, s.readInt = .ok (incompleteIntErrorable argument, s)) ∨
      4 ≤ bytes.length ∧ ∃ result after, s.readInt = .ok (result, after) ∧ result.isSuccess = true ∧
        Represents cap (bytes.drop 4) after := by
  by_cases short : bytes.length < 4
  · exact .inl ⟨short, _, readFixed_refused held short⟩
  · obtain ⟨⟨result, after⟩, ran, success, remaining⟩ :
        Returns s.readInt _ := readFixed_takes held (Nat.le_of_not_lt short) (by decide)
    exact .inr ⟨Nat.le_of_not_lt short, result, after, ran, success, remaining⟩

theorem readUUIDIntArray_lacking (held : Represents cap bytes s) (short : bytes.length < 16) :
    Returns (outcome s.readUUIDIntArray) (Refused cap bytes 4) := by
  unfold readUUIDIntArray
  rcases readInt_either held with ⟨few, argument, refused⟩ | ⟨enough, result, after, ran, success, held⟩
  · rw [refused]
    exact (returns_ok _ _).mpr (refused_at_once held few)
  simp only [ran, ok_bind, success, Bool.not_true, Bool.false_eq_true, if_false]
  clear ran
  rcases readInt_either held with ⟨few, argument, refused⟩ | ⟨second, result, after, ran, success, held⟩
  · rw [refused]
    refine (returns_ok _ _).mpr (refused_later held enough ?_)
    rw [List.length_drop]
    omega
  simp only [ran, ok_bind, success, Bool.not_true, Bool.false_eq_true, if_false]
  clear ran
  rcases readInt_either held with ⟨few, argument, refused⟩ | ⟨third, result, after, ran, success, held⟩
  · rw [refused]
    refine (returns_ok _ _).mpr (refused_later held enough ?_)
    rw [List.length_drop, List.length_drop]
    omega
  simp only [ran, ok_bind, success, Bool.not_true, Bool.false_eq_true, if_false]
  clear ran
  simp only [List.length_drop] at second third
  rcases readInt_either held with ⟨few, argument, refused⟩ | ⟨fourth, -⟩
  · rw [refused]
    refine (returns_ok _ _).mpr (refused_later held enough ?_)
    rw [List.length_drop, List.length_drop, List.length_drop]
    omega
  · simp only [List.length_drop] at fourth
    omega

/-- Of a number that is not complete all bytes are taken. -/
theorem refused_number {after : ByteBufferImpl} (held : Represents cap [] after) : Refused cap bytes 1 (false, after) :=
  ⟨rfl, [], held, fun none => (List.length_eq_zero_iff.mp (Nat.lt_one_iff.mp none)).symm, fun some => some⟩

theorem readVarInt_lacking (held : Represents cap bytes s) (incomplete : Base128.decode 5 bytes = .incomplete) :
    Returns s.readVarInt fun out => out.1.isSuccess = false ∧ Represents cap [] out.2 := by
  refine (readVarInt_represents held).mono ?_
  rw [incomplete]
  rintro out ⟨same, taken⟩
  exact ⟨by rw [same]; rfl, taken⟩

/-- In front of an array or a string: the length is not complete, or it is and is taken. -/
theorem readLength_lacking {maxSize : UInt32} (held : Represents cap bytes s)
    (lacks : ReadOperation.LacksPrefixed maxSize bytes) :
    Returns s.readVarInt fun out =>
      out.1.isSuccess = false ∧ Represents cap [] out.2 ∨
        ∃ length rest, out.1 = successErrorable length ∧ length ≤ maxSize ∧ rest.length < length.toNat ∧
          rest.length < bytes.length ∧ Represents cap rest out.2 := by
  unfold ReadOperation.LacksPrefixed at lacks
  cases found : Base128.decode 5 bytes with
  | complete length rest =>
    rw [found] at lacks
    refine (readVarInt_represents held).mono ?_
    rw [found]
    rintro out ⟨same, taken⟩
    have shorter := Base128.decode_rest_lt_of_ne (by decide) found (by simp)
    exact .inr ⟨.ofNat length, rest, same, lacks.1, lacks.2, shorter, taken⟩
  | incomplete => exact (readVarInt_lacking held found).mono fun _ out => .inl out
  | overlong length rest =>
    rw [found] at lacks
    exact lacks.elim

theorem readNewBytes_lacking (held : Represents cap bytes s) (fresh : Block UInt8) {size : Nat}
    (short : bytes.length < size) :
    ∃ argument output, s.readNewBytes fresh size = .ok (incompleteByteArrayErrorable argument, output, s) :=
  ⟨_, _, readBytes_refused held _ short⟩

theorem readString_lacking (held : Represents cap bytes s) (fresh : Block UInt8) {maxSize : UInt32}
    (lacks : ReadOperation.LacksPrefixed maxSize bytes) :
    Returns (outcome (s.readString fresh maxSize)) (Refused cap bytes 1) := by
  obtain ⟨⟨result, after⟩, ran, ⟨failed, taken⟩ | ⟨length, rest, rfl, fits, short, fewer, taken⟩⟩ :=
    readLength_lacking held lacks
  · simp only at failed
    simp only [readString, ran, ok_bind, failed, Bool.not_false, if_true]
    exact (returns_ok _ _).mpr (refused_number taken)
  · obtain ⟨argument, output, refused⟩ := readNewBytes_lacking taken fresh short
    have within : ¬ length > maxSize := UInt32.not_lt.mpr fits
    simp only [readString, ran, ok_bind, success_isSuccess, success_value, Bool.not_true, Bool.false_eq_true, if_false,
      if_neg within, refused]
    exact (returns_ok _ _).mpr (refused_later taken (Nat.lt_of_le_of_lt (Nat.zero_le _) fewer) fewer)

theorem readByteArray_lacking (held : Represents cap bytes s) (fresh : Block UInt8) (heap : Nat → Block UInt8)
    {maxSize : UInt32} (lacks : ReadOperation.LacksPrefixed maxSize bytes) :
    Returns (outcome (s.readByteArrayWithin fresh heap maxSize)) (Refused cap bytes 1) := by
  obtain ⟨⟨result, after⟩, ran, ⟨failed, taken⟩ | ⟨length, rest, rfl, fits, short, fewer, taken⟩⟩ :=
    readLength_lacking held lacks
  · simp only at failed
    simp only [readByteArrayWithin, ran, ok_bind, failed, Bool.not_false, if_true]
    exact (returns_ok _ _).mpr (refused_number taken)
  · obtain ⟨argument, output, refused⟩ := readNewBytes_lacking taken fresh short
    have within : ¬ length > maxSize := UInt32.not_lt.mpr fits
    simp only [readByteArrayWithin, readArrayOf, ran, ok_bind, success_isSuccess, success_value, Bool.not_true,
      Bool.false_eq_true, if_false, if_neg within, refused]
    exact (returns_ok _ _).mpr (refused_later taken (Nat.lt_of_le_of_lt (Nat.zero_le _) fewer) fewer)

/-- What each read does where the content ends before what it reads. -/
theorem perform_lacking (held : Represents cap bytes s) {operation : ReadOperation} (lacks : operation.Lacks bytes) :
    Returns (operation.perform s) (Refused cap bytes operation.firstPart) := by
  cases operation with
  | boolean =>
    have few : s.readableBytes < 1 := by rwa [held.readable]
    simp only [ReadOperation.perform, readBoolean, if_pos few]
    exact (returns_ok _ _).mpr (refused_at_once held lacks)
  | byte =>
    have few : s.readableBytes < 1 := by rwa [held.readable]
    simp only [ReadOperation.perform, readByte, if_pos few]
    exact (returns_ok _ _).mpr (refused_at_once held lacks)
  | short => exact readFixed_lacking held lacks fun _ => rfl
  | medium => exact readFixed_lacking held lacks fun _ => rfl
  | int => exact readFixed_lacking held lacks fun _ => rfl
  | long => exact readFixed_lacking held lacks fun _ => rfl
  | varInt =>
    obtain ⟨⟨result, after⟩, ran, failed, taken⟩ := readVarInt_lacking held lacks
    simp only [ReadOperation.perform, outcome, ran, Except.map, returns_ok, failed]
    exact refused_number taken
  | varLong =>
    obtain ⟨⟨result, after⟩, ran, rfl, taken⟩ := readVarLong_represents held
    rw [show Base128.decode 10 bytes = .incomplete from lacks] at taken ran
    simp only [ReadOperation.perform, outcome, ran, Except.map, returns_ok]
    exact refused_number taken
  | uuid => exact readUUID_lacking held lacks
  | uuidIntArray => exact readUUIDIntArray_lacking held lacks
  | bytes output size =>
    simp only [ReadOperation.perform, readBytes_refused held output lacks, Except.map, returns_ok]
    exact refused_at_once held lacks
  | string fresh maxSize => exact readString_lacking held fresh lacks
  | byteArray fresh heap maxSize => exact readByteArray_lacking held fresh heap lacks

/-! ### When all bytes are left -/

/-- A read that lacks bytes is refused; it leaves all bytes exactly if there are fewer
than its first part asks for. -/
theorem failed_read_atomic_iff (positive : 0 < cap) (reachable : Reachable cap s) {operation : ReadOperation}
    (lacks : operation.Lacks s.content) :
    (∃ after, operation.perform s = .ok (false, after)) ∧
      (operation.Atomic s ↔ s.readableBytes < operation.firstPart) := by
  have held := reachable.represents positive
  obtain ⟨⟨success, after⟩, ran, refused, left, remaining, all, fewer⟩ := perform_lacking held lacks
  simp only at refused
  subst refused
  refine ⟨⟨after, ran⟩, ?_⟩
  rw [held.readable]
  constructor
  · rintro ⟨after', ran', -, count⟩
    cases ran.symm.trans ran'
    by_contra enough
    have shorter := fewer (Nat.le_of_not_lt enough)
    rw [held.readable, remaining.readable] at count
    exact Nat.ne_of_lt shorter count
  · intro short
    refine ⟨after, ran, remaining.content.trans (all short), ?_⟩
    rw [held.readable, remaining.readable, all short]

/-- Three bytes of a `UUID`, over two segments. -/
theorem three_bytes_of_uuid_stay : ∃ s reply,
    (new (fun _ _ => 0) 2).step (.writeBytes [1, 2, 3]) = .ok (s, reply) ∧ ReadOperation.Atomic .uuid s := by
  have content : ((new (fun _ _ => 0) 2).step (.writeBytes [1, 2, 3])).map (fun out => out.1.content) =
      .ok [1, 2, 3] := rfl
  obtain ⟨⟨s, reply⟩, ran, content⟩ := returns_of_map content
  have reachable : Reachable 2 s := .called (.new _) (by trivial) ran
  have count : s.readableBytes = s.content.length := (reachable.represents (by omega)).readable
  simp only at content
  simp only [content, List.length_cons, List.length_nil] at count
  have lacks : ReadOperation.Lacks s.content .uuid := by simp [ReadOperation.Lacks, content]
  refine ⟨s, reply, ran, (failed_read_atomic_iff (by omega) reachable lacks).2.mpr ?_⟩
  show s.readableBytes < 8
  omega

/-- The first byte of a `VarInt` of two is lost. -/
theorem first_byte_of_number_is_lost : ∃ s,
    (new (fun _ _ => 0) 4).writeByte 0x80 = .ok s ∧ ReadOperation.Lacks s.content .varInt ∧
      ¬ ReadOperation.Atomic .varInt s := by
  obtain ⟨s, wrote, held⟩ := writeByte_represents (represents_new (fun _ _ => 0) (show 0 < 4 by decide)) 0x80
  have lacks : ReadOperation.Lacks s.content .varInt := by
    rw [held.content]
    rfl
  obtain ⟨out, ran, -, left, remaining, -, fewer⟩ := perform_lacking held (held.content ▸ lacks)
  refine ⟨s, wrote, lacks, ?_⟩
  rintro ⟨after, ran', -, count⟩
  cases ran.symm.trans ran'
  rw [held.readable, remaining.readable] at count
  exact Nat.ne_of_lt (fewer (Nat.le_refl 1)) count

end ShipNet.ByteBufferImpl
