import ShipNet.CodecProofs
import ShipNet.FramedPipe
import ShipNet.PacketPipe
import ShipNet.ReachableBuffer

/-! Where `FramedBytePacketPipe::Read` and `FramedByteBytePipe::Write` begin a frame. Both
count the readable bytes before they read a length, and compare the count after it: a
body that lacks no more bytes than the length took is begun too early. -/
namespace ShipNet
open Fallible ByteBufferImpl

variable {δ R : Type} {cap : Nat} {bytes rest : List UInt8} {length saved : UInt32} {accepts : UInt32 → Bool}
  {incomplete : ErrorableType}

/-- A method of a subclass that is called for a frame: `ReadPacket` or `EncodeFrame`. -/
abbrev FrameCall (R δ : Type) : Type := δ → ByteBufferImpl → UInt32 → Exec (Errorable R × δ × ByteBufferImpl)

/-- What a call on a pipe leaves: its answer, the saved length, and the input. -/
structure Left (R : Type) where
  answer : Errorable R
  saved : UInt32
  input : ByteBufferImpl

/-- The method, where a call for more bytes than there are is a fault. -/
def checked (call : FrameCall R δ) : FrameCall R δ := fun state input frameSize =>
  if frameSize.toNat ≤ input.readableBytes then call state input frameSize else throw .outOfBounds

/-- The length of the frame that comes next, and the bytes behind it: the length that is
saved, or else the one in front of the input. -/
def Announced (saved : UInt32) (accepts : UInt32 → Bool) (bytes : List UInt8) (length : UInt32)
    (rest : List UInt8) : Prop :=
  if saved = 0 then
    ∃ number, Base128.decode 5 bytes = .complete number rest ∧ length = .ofNat number ∧ accepts length = true
  else length = saved ∧ rest = bytes

/-- A pipe begins a frame when all of its bytes are there, at the length that is saved or
read, and waits for them with this length otherwise. -/
structure StartsWhole (incomplete : ErrorableType) (announced : UInt32 → List UInt8 → Prop) (state : δ)
    (operation : FrameCall R δ → Exec (Left R)) : Prop where
  whole : ∀ call, operation call = operation (checked call)
  starts : ∀ length rest, announced length rest → length ≠ 0 → length.toNat ≤ rest.length →
    ∃ input : ByteBufferImpl, input.content = rest ∧ ∀ call, operation call = do
      let (answer, _, input) ← call state input length
      pure ⟨answer, 0, input⟩
  resumes : ∀ length rest, announced length rest → rest.length < length.toNat → ∀ call,
    Returns (operation call) fun left =>
      left.answer.typeOrdinal = incomplete ∧ left.saved = length ∧ left.input.content = rest

/-- The length of a frame is in front of the input, and its bytes are not all behind it;
but there are as many, with those of the length. -/
def CountsLength (saved : UInt32) (accepts : UInt32 → Bool) (bytes : List UInt8) : Prop :=
  saved = 0 ∧ ∃ length rest, Announced saved accepts bytes length rest ∧
    rest.length < length.toNat ∧ length.toNat ≤ bytes.length

theorem Announced.unique {other : UInt32} {tail : List UInt8} (announced : Announced saved accepts bytes length rest)
    (too : Announced saved accepts bytes other tail) : other = length ∧ tail = rest := by
  unfold Announced at announced too
  by_cases fresh : saved = 0
  · rw [if_pos fresh] at announced too
    obtain ⟨number, found, rfl, -⟩ := announced
    obtain ⟨numberToo, foundToo, rfl, -⟩ := too
    cases found.symm.trans foundToo
    exact ⟨rfl, rfl⟩
  · rw [if_neg fresh] at announced too
    exact ⟨too.1.trans announced.1.symm, too.2.trans announced.2.symm⟩

theorem announced_saved (pending : saved ≠ 0) : Announced saved accepts bytes saved bytes := by
  rw [Announced, if_neg pending]
  exact ⟨rfl, rfl⟩

/-- The bytes of a length are gone behind it. -/
theorem Announced.longer (announced : Announced saved accepts bytes length rest) : rest.length ≤ bytes.length := by
  unfold Announced at announced
  split at announced
  · obtain ⟨number, found, -⟩ := announced
    have shorter := Base128.decode_rest_lt_of_ne (by decide) found (by simp)
    exact Nat.le_of_lt shorter
  · exact Nat.le_of_eq (congrArg List.length announced.2)

/-- As many bytes as the frame has are all of its bytes, unless those of the length count. -/
theorem Announced.enough (announced : Announced saved accepts bytes length rest)
    (fair : ¬ CountsLength saved accepts bytes) (counted : bytes.length ≥ length.toNat) :
    length.toNat ≤ rest.length := by
  apply Nat.le_of_not_lt
  intro short
  refine fair ⟨?_, length, rest, announced, short, counted⟩
  by_cases fresh : saved = 0
  · exact fresh
  · rw [Announced, if_neg fresh] at announced
    rw [announced.2] at short
    exact absurd counted (Nat.not_le.mpr short)

/-! ### The end of both methods -/

/-- The comparison with the count that was taken first, and the call. -/
def compare (incomplete : Errorable R) (state : δ) (input : ByteBufferImpl) (length : UInt32) (readableBytes : Nat)
    (call : FrameCall R δ) : Exec (Left R) :=
  if readableBytes ≥ length.toNat then do
    let (answer, _, input) ← call state input length
    pure ⟨answer, 0, input⟩
  else pure ⟨incomplete, length, input⟩

/-- How far a method comes: to an answer before any frame, or to the comparison, with the
count of all bytes. -/
inductive Course (cap : Nat) (incomplete : ErrorableType) (saved : UInt32) (accepts : UInt32 → Bool)
    (bytes : List UInt8) (state : δ) (operation : FrameCall R δ → Exec (Left R)) : Prop
  | answered (left : Left R) (same : ∀ call, operation call = .ok left)
      (nothing : ∀ length rest, Announced saved accepts bytes length rest → length = 0)
  | compared (waits : Errorable R) (input : ByteBufferImpl) (length : UInt32) (rest : List UInt8)
      (announced : Announced saved accepts bytes length rest) (held : Represents cap rest input)
      (class_ : waits.typeOrdinal = incomplete)
      (same : ∀ call, operation call = compare waits state input length bytes.length call)

/-- A method that compares with the count of all bytes is right except where the bytes of
the length make the difference. -/
theorem Course.startsWhole_iff {state : δ} {operation : FrameCall R δ → Exec (Left R)}
    (course : Course cap incomplete saved accepts bytes state operation) :
    StartsWhole incomplete (Announced saved accepts bytes) state operation ↔ ¬ CountsLength saved accepts bytes := by
  cases course with
  | answered left same nothing =>
    have neverShort {length : UInt32} {rest : List UInt8} (announced : Announced saved accepts bytes length rest) :
        ¬ rest.length < length.toNat := by
      rw [nothing length rest announced]
      exact Nat.not_lt_zero _
    constructor
    · rintro - ⟨-, length, rest, announced, short, -⟩
      exact neverShort announced short
    · intro _
      refine ⟨fun call => (same call).trans (same _).symm, ?_, ?_⟩
      · intro length rest announced positive
        exact absurd (nothing length rest announced) positive
      · intro length rest announced short
        exact absurd short (neverShort announced)
  | compared waits input length rest announced held class_ same =>
    constructor
    · rintro starts ⟨-, other, tail, found, short, counted⟩
      obtain ⟨rfl, rfl⟩ := announced.unique found
      obtain ⟨left, ran, -⟩ := starts.resumes _ _ announced short fun _ _ _ => .error .endless
      rw [same, compare, if_pos counted] at ran
      cases ran
    · intro fair
      refine ⟨?_, ?_, ?_⟩
      · intro call
        rw [same, same, compare, compare]
        by_cases counted : bytes.length ≥ length.toNat
        · have there : length.toNat ≤ input.readableBytes := held.readable ▸ announced.enough fair counted
          rw [if_pos counted, if_pos counted, checked, if_pos there]
        · rw [if_neg counted, if_neg counted]
      · intro other tail found positive there
        obtain ⟨rfl, rfl⟩ := announced.unique found
        refine ⟨input, held.content, ?_⟩
        intro call
        rw [same, compare, if_pos (Nat.le_trans there announced.longer)]
      · intro other tail found short call
        obtain ⟨rfl, rfl⟩ := announced.unique found
        have notCounted : ¬ bytes.length ≥ other.toNat :=
          fun counted => absurd (announced.enough fair counted) (Nat.not_le.mpr short)
        rw [same, compare, if_neg notCounted]
        exact (returns_ok _ _).mpr ⟨class_, rfl, held.content⟩

/-! ### The length -/

/-- What `ReadVarInt` answers to a length in front of the input, or to none. -/
inductive Header (cap : Nat) (bytes : List UInt8) (input : ByteBufferImpl) : Prop
  | incomplete (after : ByteBufferImpl) (ran : input.readVarInt = .ok (incompleteVarIntErrorable 0, after))
      (none : ∀ number rest, Base128.decode 5 bytes ≠ .complete number rest)
  | invalid (argument : UInt64) (after : ByteBufferImpl)
      (ran : input.readVarInt = .ok (invalidVarIntErrorable argument, after))
      (none : ∀ number rest, Base128.decode 5 bytes ≠ .complete number rest)
  | complete (number : Nat) (rest : List UInt8) (after : ByteBufferImpl)
      (ran : input.readVarInt = .ok (successErrorable (.ofNat number), after))
      (found : Base128.decode 5 bytes = .complete number rest) (remaining : Represents cap rest after)

theorem header_read {input : ByteBufferImpl} (held : Represents cap bytes input) : Header cap bytes input := by
  obtain ⟨⟨result, after⟩, ran, answer, remaining⟩ := readVarInt_represents held
  simp only at answer remaining
  subst answer
  cases found : Base128.decode 5 bytes with
  | incomplete =>
    rw [found] at ran
    exact .incomplete after ran (by simp [found])
  | overlong number rest =>
    rw [found] at ran
    exact .invalid _ after ran (by simp [found])
  | complete number rest =>
    rw [found] at ran remaining
    exact .complete number rest after ran found remaining

/-- No number in front of the input announces nothing. -/
theorem nothing_announced (fresh : saved = 0) (none : ∀ number rest, Base128.decode 5 bytes ≠ .complete number rest)
    (length : UInt32) (rest : List UInt8) (announced : Announced saved accepts bytes length rest) : length = 0 := by
  rw [Announced, if_pos fresh] at announced
  obtain ⟨number, found, -⟩ := announced
  exact absurd found (none number rest)

/-- A number announces itself, if it is accepted. -/
theorem announced_number {number : Nat} (fresh : saved = 0) (found : Base128.decode 5 bytes = .complete number rest)
    (accepted : accepts (.ofNat number) = true) : Announced saved accepts bytes (.ofNat number) rest := by
  rw [Announced, if_pos fresh]
  exact ⟨number, found, rfl, accepted⟩

/-! ### The two methods -/

namespace FramedBytePacketPipe

variable {pipe : FramedBytePacketPipe δ} {input : ByteBufferImpl}

def Answer.left (answer : Answer δ) : Left PacketHolder :=
  ⟨answer.packet, answer.pipe.nextReadFrameLength, answer.input⟩

/-- `Read`, with any method for `ReadPacket`. -/
def reading (pipe : FramedBytePacketPipe δ) (input : ByteBufferImpl) (readPacket : ReadPacket δ) :
    Exec (Left PacketHolder) :=
  (pipe.read readPacket input).map Answer.left

theorem readFrame_compare (announced : pipe.nextReadFrameLength ≠ 0) (readableBytes : Nat) (readPacket : ReadPacket δ) :
    (readFrame readPacket pipe input readableBytes).map Answer.left =
      compare (incompleteFrameErrorable (.ofNat readableBytes)) pipe.decoder input pipe.nextReadFrameLength
        readableBytes readPacket := by
  unfold readFrame compare
  by_cases counted : readableBytes ≥ pipe.nextReadFrameLength.toNat
  · rw [if_pos ⟨announced, counted⟩, if_pos counted]
    cases readPacket pipe.decoder input pipe.nextReadFrameLength with
    | error fault => rfl
    | ok out => rfl
  · rw [if_neg (fun both => counted both.2), if_neg counted]
    rfl

/-- Without a length nothing is called. -/
theorem readFrame_nothing (none : pipe.nextReadFrameLength = 0) (readableBytes : Nat) (readPacket : ReadPacket δ) :
    (readFrame readPacket pipe input readableBytes).map Answer.left =
      .ok ⟨incompleteFrameErrorable (.ofNat readableBytes), 0, input⟩ := by
  unfold readFrame
  rw [if_neg (fun both => both.1 none)]
  simp only [Except.map, pure_is_ok, Answer.left, none]

/-- A length in front of the input, refused or compared. -/
theorem read_course_length {number : Nat} {after : ByteBufferImpl} (held : Represents cap bytes input)
    (fresh : pipe.nextReadFrameLength = 0) (some : input.readableBytes ≠ 0)
    (ran : input.readVarInt = .ok (successErrorable (.ofNat number), after))
    (found : Base128.decode 5 bytes = .complete number rest) (remaining : Represents cap rest after) :
    Course cap .incompleteFrame pipe.nextReadFrameLength (· ≤ pipe.maxReadSize) bytes pipe.decoder
      (pipe.reading input) := by
  by_cases large : UInt32.ofNat number > pipe.maxReadSize
  · refine .answered ⟨invalidFrameErrorable (UInt32.ofNat number).toUInt64, 0, after⟩ ?_ ?_
    · intro readPacket
      simp only [reading, read, fresh, some, ran, large, if_true, if_false, ok_bind, success_isSuccess,
        success_value, pure_is_ok, Except.map, Answer.left]
    · intro length tail announced
      rw [Announced, if_pos fresh] at announced
      obtain ⟨other, too, rfl, accepted⟩ := announced
      cases found.symm.trans too
      exact absurd large (UInt32.not_lt.mpr (of_decide_eq_true accepted))
  · have accepted : decide (UInt32.ofNat number ≤ pipe.maxReadSize) = true :=
      decide_eq_true (UInt32.not_lt.mp large)
    have announced : Announced pipe.nextReadFrameLength (· ≤ pipe.maxReadSize) bytes (.ofNat number) rest :=
      announced_number fresh found accepted
    have goes (readPacket : ReadPacket δ) : pipe.reading input readPacket =
        (readFrame readPacket { pipe with nextReadFrameLength := .ofNat number } after
          input.readableBytes).map Answer.left := by
      simp only [reading, read, fresh, some, ran, large, if_true, if_false, ok_bind, success_isSuccess,
        success_value]
    by_cases zero : UInt32.ofNat number = 0
    · refine .answered _ (fun readPacket => (goes readPacket).trans (readFrame_nothing zero _ readPacket)) ?_
      intro length tail other
      rw [(announced.unique other).1, zero]
    · refine .compared (incompleteFrameErrorable (.ofNat input.readableBytes)) after _ rest announced remaining
        rfl ?_
      intro readPacket
      rw [goes, readFrame_compare zero, held.readable]

theorem read_course (held : Represents cap bytes input) :
    Course cap .incompleteFrame pipe.nextReadFrameLength (· ≤ pipe.maxReadSize) bytes pipe.decoder
      (pipe.reading input) := by
  by_cases fresh : pipe.nextReadFrameLength = 0
  · by_cases empty : input.readableBytes = 0
    · have none : bytes = [] := List.length_eq_zero_iff.mp (held.readable.symm.trans empty)
      refine .answered ⟨incompleteFrameErrorable 0, 0, input⟩ ?_
        (nothing_announced fresh (by simp [none, Base128.decode]))
      intro readPacket
      simp only [reading, read, fresh, empty, if_true, pure_is_ok, Except.map, Answer.left]
    · cases header_read held with
      | incomplete after ran none =>
        refine .answered ⟨incompleteFrameErrorable (.ofNat input.readableBytes), 0, after⟩ ?_
          (nothing_announced fresh none)
        intro readPacket
        rw [← readFrame_nothing fresh input.readableBytes readPacket]
        simp [reading, read, fresh, empty, ran, incompleteVarIntErrorable]
      | invalid argument after ran none =>
        refine .answered ⟨invalidFrameErrorable (default : UInt32).toUInt64, 0, after⟩ ?_ (nothing_announced fresh none)
        intro readPacket
        simp [reading, read, fresh, empty, ran, invalidVarIntErrorable, Except.map, Answer.left]
      | complete number rest after ran found remaining =>
        exact read_course_length held fresh empty ran found remaining
  · refine .compared (incompleteFrameErrorable (.ofNat input.readableBytes)) input pipe.nextReadFrameLength bytes
      (announced_saved fresh) held rfl ?_
    intro readPacket
    simp only [reading, read, fresh, if_false, readFrame_compare fresh, held.readable]

end FramedBytePacketPipe

namespace FramedByteBytePipe

variable {w : Writer δ}

/-- `Write`, with any method for `EncodeFrame`. -/
def writing (w : Writer δ) (encodeFrame : EncodeFrame δ) : Exec (Left Nat) :=
  (write encodeFrame w).map fun out => ⟨out.1, out.2.nextWriteFrameLength, out.2.input⟩

theorem writeFrame_compare (readableBytes : Nat) (encodeFrame : EncodeFrame δ) :
    ((writeFrame encodeFrame w readableBytes).map fun out => ⟨out.1, out.2.nextWriteFrameLength, out.2.input⟩) =
      compare (incompleteByteFrameErrorable w.nextWriteFrameLength.toUInt64) w.encoder w.input w.nextWriteFrameLength
        readableBytes encodeFrame := by
  unfold writeFrame compare
  by_cases counted : readableBytes ≥ w.nextWriteFrameLength.toNat
  · rw [if_pos counted, if_pos counted]
    cases encodeFrame w.encoder w.input w.nextWriteFrameLength with
    | error fault => rfl
    | ok out => rfl
  · rw [if_neg counted, if_neg counted]
    rfl

theorem write_course (held : Represents cap bytes w.input) :
    Course cap .incompleteByteFrame w.nextWriteFrameLength (fun _ => true) bytes w.encoder (writing w) := by
  by_cases fresh : w.nextWriteFrameLength = 0
  · by_cases empty : w.input.readableBytes = 0
    · have none : bytes = [] := List.length_eq_zero_iff.mp (held.readable.symm.trans empty)
      refine .answered ⟨incompleteByteFrameErrorable 0, 0, w.input⟩ ?_
        (nothing_announced fresh (by simp [none, Base128.decode]))
      intro encodeFrame
      simp only [writing, write, fresh, empty, if_true, pure_is_ok, Except.map]
      rfl
    · cases header_read held with
      | incomplete after ran none =>
        refine .answered ⟨incompleteByteFrameErrorable (default : UInt32).toUInt64, 0, after⟩ ?_
          (nothing_announced fresh none)
        intro encodeFrame
        simp [writing, write, fresh, empty, ran, incompleteVarIntErrorable, Except.map]
      | invalid argument after ran none =>
        refine .answered ⟨invalidByteFrameErrorable (default : UInt32).toUInt64, 0, after⟩ ?_
          (nothing_announced fresh none)
        intro encodeFrame
        simp [writing, write, fresh, empty, ran, invalidVarIntErrorable, Except.map]
      | complete number rest after ran found remaining =>
        refine .compared (incompleteByteFrameErrorable (UInt32.ofNat number).toUInt64) after _ rest
          (announced_number fresh found rfl) remaining rfl ?_
        intro encodeFrame
        have goes := writeFrame_compare (w := { w with input := after, nextWriteFrameLength := .ofNat number })
          bytes.length encodeFrame
        rw [← goes, ← held.readable]
        simp only [writing, write, fresh, empty, ran, if_true, if_false, ok_bind, success_isSuccess, success_value]
  · refine .compared (incompleteByteFrameErrorable w.nextWriteFrameLength.toUInt64) w.input w.nextWriteFrameLength bytes
      (announced_saved fresh) held rfl ?_
    intro encodeFrame
    rw [← writeFrame_compare, ← held.readable]
    simp only [writing, write, fresh, if_false]

end FramedByteBytePipe

open FramedByteBytePipe in
/-- Frames are begun with all of their bytes, and waited for otherwise, exactly where the
bytes of the length do not make up for those that the body lacks. -/
theorem frames_start_whole_iff {κ : Type} {input : ByteBufferImpl} (positive : 0 < cap)
    (reachable : Reachable cap input) (pipe : FramedBytePacketPipe δ) (nextWriteFrameLength : UInt32) (encoder : κ) :
    (StartsWhole .incompleteFrame
        (Announced pipe.nextReadFrameLength (· ≤ pipe.maxReadSize) input.content) pipe.decoder (pipe.reading input) ↔
      ¬ CountsLength pipe.nextReadFrameLength (· ≤ pipe.maxReadSize) input.content) ∧
    (StartsWhole .incompleteByteFrame
        (Announced nextWriteFrameLength (fun _ => true) input.content) encoder
        (writing ⟨nextWriteFrameLength, encoder, input⟩) ↔
      ¬ CountsLength nextWriteFrameLength (fun _ => true) input.content) := by
  have held := reachable.represents positive
  have course := write_course (w := ⟨nextWriteFrameLength, encoder, input⟩) held
  exact ⟨(FramedBytePacketPipe.read_course held).startsWhole_iff, course.startsWhole_iff⟩

/-- A length of 1 and the byte behind it. -/
theorem whole_frame_starts : ∃ input reply, (new (fun _ _ => 0) 4).step (.writeBytes [1, 7]) = .ok (input, reply) ∧
    StartsWhole .incompleteFrame (Announced 0 (· ≤ 10) input.content) ()
      (FramedBytePacketPipe.reading { maxReadSize := 10, decoder := () } input) := by
  obtain ⟨⟨input, reply⟩, ran, held⟩ := step_holds (represents_new (fun _ _ => 0) (show 0 < 4 by decide))
    (show Operation.Proper (.writeBytes [1, 7]) from trivial)
  have reachable : Reachable 4 input := .called (.new _) (by trivial) ran
  have content : input.content = [1, 7] := held.content
  refine ⟨input, reply, ran, (frames_start_whole_iff (by decide) reachable
    { maxReadSize := 10, decoder := () } 0 ()).1.mpr ?_⟩
  rintro ⟨-, length, rest, announced, short, -⟩
  have one : Announced 0 (· ≤ (10 : UInt32)) input.content 1 [7] := by
    rw [content]
    exact ⟨1, rfl, rfl, by decide⟩
  obtain ⟨rfl, rfl⟩ := one.unique announced
  exact absurd short (by decide)

/-- A length of 2 and one byte behind it, which makes two with the length. -/
theorem short_frame_starts : ∃ input reply, (new (fun _ _ => 0) 4).step (.writeBytes [2, 7]) = .ok (input, reply) ∧
    ¬ StartsWhole .incompleteFrame (Announced 0 (· ≤ 10) input.content) ()
      (FramedBytePacketPipe.reading { maxReadSize := 10, decoder := () } input) ∧
    ¬ StartsWhole .incompleteByteFrame (Announced 0 (fun _ => true) input.content) ()
      (FramedByteBytePipe.writing ⟨0, (), input⟩) := by
  obtain ⟨⟨input, reply⟩, ran, held⟩ := step_holds (represents_new (fun _ _ => 0) (show 0 < 4 by decide))
    (show Operation.Proper (.writeBytes [2, 7]) from trivial)
  have represents : Represents 4 [2, 7] input := held
  have reads := @FramedBytePacketPipe.read_course _ _ _ { maxReadSize := 10, decoder := () } _ represents
  have writes := FramedByteBytePipe.write_course (w := ⟨0, (), input⟩) represents
  have content : input.content = [2, 7] := represents.content
  refine ⟨input, reply, ran, ?_, ?_⟩
  · rw [content]
    intro starts
    apply reads.startsWhole_iff.mp starts
    exact ⟨rfl, 2, [7], ⟨2, rfl, rfl, by decide⟩, by decide, by decide⟩
  · rw [content]
    intro starts
    apply writes.startsWhole_iff.mp starts
    exact ⟨rfl, 2, [7], ⟨2, rfl, rfl, rfl⟩, by decide, by decide⟩

end ShipNet
