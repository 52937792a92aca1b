import ShipNet.FrameStream

/-! The frames that `FramedByteBytePipe::Read` hands over, for every decoder and every way
in which bytes arrive between the calls. A saved length of zero means that there is none;
a length of zero that is read needs no more bytes, so its frame is handed over at once. -/
namespace ShipNet.FramedByteBytePipe
open Fallible ByteBufferImpl

variable {δ : Type} {decodeFrame : DecodeFrame δ} {cap : Nat} {content bytes header stream more : List UInt8}
  {length saved maxReadSize : UInt32} {calls : List DecodeCall} {r after : Reader δ}

/-- `DecodeFrame` ends, whatever it answers, and has taken any number of the readable bytes. -/
def TakesBytes (cap : Nat) (decodeFrame : DecodeFrame δ) : Prop :=
  ∀ (decoder : δ) (input : ByteBufferImpl) (bytes : List UInt8) (frameSize : UInt32),
    Represents cap bytes input → frameSize.toNat ≤ bytes.length →
    Returns (decodeFrame decoder input frameSize) fun out =>
      ∃ rest, rest <:+ bytes ∧ Represents cap rest out.2.2

/-- The bytes of a length: at most five, of a value that is taken modulo 2^32. -/
structure IsLength (header : List UInt8) (length : UInt32) : Prop where
  terminated : Base128.Terminated header
  within : header.length ≤ 5
  value : length = .ofNat (Base128.value header)

/-- Bytes that are read as no length: they end before it does, or go on after five, or
announce too much. -/
def Unusable (maxReadSize : UInt32) (bytes : List UInt8) : Prop :=
  Base128.Continued bytes ∧ bytes.length ≤ 5 ∨ ∃ length, IsLength bytes length ∧ maxReadSize < length

/-- A length that is saved was read right before the unread bytes. -/
def Pending (maxReadSize saved : UInt32) (header : List UInt8) : Prop :=
  if saved = 0 then header = [] else IsLength header saved ∧ saved ≤ maxReadSize

/-- All bytes that arrived, as they were used: every frame that was handed over has a length
of its own right before it. What the call took may be more or less than the frame. -/
inductive Parted (maxReadSize saved : UInt32) (content : List UInt8) : List UInt8 → List DecodeCall → Prop
  | unread {header : List UInt8} (pending : Pending maxReadSize saved header) :
      Parted maxReadSize saved content (header ++ content) []
  | unusable {bytes stream : List UInt8} {calls : List DecodeCall} (unusable : Unusable maxReadSize bytes)
      (later : Parted maxReadSize saved content stream calls) :
      Parted maxReadSize saved content (bytes ++ stream) calls
  | frame {header taken stream : List UInt8} {call : DecodeCall} {calls : List DecodeCall}
      (announced : IsLength header call.frameSize) (allowed : call.frameSize ≤ maxReadSize)
      (whole : call.frame.length = call.frameSize.toNat) (follows : call.frame <+: taken ++ stream)
      (later : Parted maxReadSize saved content stream calls) :
      Parted maxReadSize saved content (header ++ (taken ++ stream)) (call :: calls)

/-! ### One call of `Read` -/

/-- Nothing was handed over. -/
structure Uncalled (cap : Nat) (r : Reader δ) (saved : UInt32) (rest : List UInt8) (after : Reader δ) : Prop where
  pipe : after.pipe = { r.pipe with nextReadFrameLength := saved }
  decoder : after.decoder = r.decoder
  calls : after.calls = r.calls
  held : Represents cap rest after.input

/-- `DecodeFrame` was called with this length, on these readable bytes. -/
structure Called (cap : Nat) (decodeFrame : DecodeFrame δ) (r : Reader δ) (length : UInt32) (bytes : List UInt8)
    (answer : Errorable Nat) (after : Reader δ) : Prop where
  allowed : length ≤ r.pipe.maxReadSize
  whole : length.toNat ≤ bytes.length
  ran : ∃ input, Represents cap bytes input ∧
    decodeFrame r.decoder input length = .ok (answer, after.decoder, after.input)
  calls : after.calls = r.calls ++ [⟨length, bytes.take length.toNat⟩]
  cleared : after.pipe = { r.pipe with nextReadFrameLength := 0 }
  taken : ∃ rest, rest <:+ bytes ∧ Represents cap rest after.input

/-- What one `Read` does. A length is read only where none is saved. -/
inductive Turn (cap : Nat) (decodeFrame : DecodeFrame δ) (r : Reader δ) (answer : Errorable Nat) (after : Reader δ) :
    Prop
  | cut (fresh : r.pipe.nextReadFrameLength = 0) (continued : Base128.Continued r.input.content)
      (short : r.input.content.length < 5) (incomplete : answer.typeOrdinal = .incompleteByteFrame)
      (left : Uncalled cap r 0 [] after)
  | overlong {header rest : List UInt8} (fresh : r.pipe.nextReadFrameLength = 0)
      (split : r.input.content = header ++ rest) (continued : Base128.Continued header) (full : header.length = 5)
      (invalid : answer.typeOrdinal = .invalidByteFrame) (left : Uncalled cap r 0 rest after)
  | tooLarge {header rest : List UInt8} {length : UInt32} (fresh : r.pipe.nextReadFrameLength = 0)
      (split : r.input.content = header ++ rest) (announced : IsLength header length)
      (large : r.pipe.maxReadSize < length) (invalid : answer.typeOrdinal = .invalidByteFrame)
      (left : Uncalled cap r 0 rest after)
  /-- The length is saved for the next `Read`. -/
  | announced {header rest : List UInt8} {length : UInt32} (fresh : r.pipe.nextReadFrameLength = 0)
      (split : r.input.content = header ++ rest) (announced : IsLength header length)
      (allowed : length ≤ r.pipe.maxReadSize) (short : rest.length < length.toNat)
      (incomplete : answer.typeOrdinal = .incompleteByteFrame) (left : Uncalled cap r length rest after)
  | began {header rest : List UInt8} {length : UInt32} (fresh : r.pipe.nextReadFrameLength = 0)
      (split : r.input.content = header ++ rest) (announced : IsLength header length)
      (called : Called cap decodeFrame r length rest answer after)
  | waited (saved : r.pipe.nextReadFrameLength ≠ 0)
      (short : r.input.content.length < r.pipe.nextReadFrameLength.toNat)
      (incomplete : answer.typeOrdinal = .incompleteByteFrame) (same : after = r)
  | resumed (saved : r.pipe.nextReadFrameLength ≠ 0)
      (called : Called cap decodeFrame r r.pipe.nextReadFrameLength r.input.content answer after)

theorem readFrame_called (takes : TakesBytes cap decodeFrame) (held : Represents cap bytes r.input)
    (allowed : r.pipe.nextReadFrameLength ≤ r.pipe.maxReadSize)
    (whole : r.pipe.nextReadFrameLength.toNat ≤ bytes.length) :
    Returns (readFrame decodeFrame r) fun out =>
      Called cap decodeFrame r r.pipe.nextReadFrameLength bytes out.1 out.2 := by
  have there : r.input.readableBytes ≥ r.pipe.nextReadFrameLength.toNat := by
    rw [held.readable]
    exact whole
  obtain ⟨⟨answer, decoder, input⟩, ran, rest, suffix, remaining⟩ := takes r.decoder r.input bytes _ held whole
  simp only [readFrame, if_pos there, ran, ok_bind, pure_is_ok, returns_ok]
  exact ⟨allowed, whole, ⟨r.input, held, ran⟩, by rw [held.content], rfl, rest, suffix, remaining⟩

/-- A length that is allowed is saved before its frame is looked for. -/
theorem read_saves {input : ByteBufferImpl} {number : Nat} (fresh : r.pipe.nextReadFrameLength = 0)
    (allowed : UInt32.ofNat number ≤ r.pipe.maxReadSize)
    (ran : r.input.readVarInt = .ok (successErrorable (.ofNat number), input)) :
    read decodeFrame r = readFrame decodeFrame { r with
      input := input
      pipe := { r.pipe with nextReadFrameLength := .ofNat number } } := by
  have notLarge : ¬ UInt32.ofNat number > r.pipe.maxReadSize := UInt32.not_lt.mpr allowed
  simp only [read, if_pos fresh, ran, ok_bind, success_isSuccess, success_value, notLarge, if_true, if_false]

/-- A length in front of the input, whether its frame is there or not. -/
theorem read_length {input : ByteBufferImpl} {number : Nat} {rest : List UInt8} (takes : TakesBytes cap decodeFrame)
    (fresh : r.pipe.nextReadFrameLength = 0) (split : r.input.content = header ++ rest)
    (announced : IsLength header (.ofNat number)) (remaining : Represents cap rest input)
    (ran : r.input.readVarInt = .ok (successErrorable (.ofNat number), input)) :
    Returns (read decodeFrame r) fun out => Turn cap decodeFrame r out.1 out.2 := by
  by_cases large : UInt32.ofNat number > r.pipe.maxReadSize
  · simp only [read, if_pos fresh, ran, ok_bind, success_isSuccess, success_value, large, if_true, pure_is_ok,
      returns_ok]
    refine .tooLarge fresh split announced large rfl ⟨?_, rfl, rfl, remaining⟩
    rw [← fresh]
  · have allowed : UInt32.ofNat number ≤ r.pipe.maxReadSize := UInt32.not_lt.mp large
    rw [read_saves fresh allowed ran]
    by_cases whole : (UInt32.ofNat number).toNat ≤ rest.length
    · have called := @readFrame_called _ _ _ _ { r with
        input := input
        pipe := { r.pipe with nextReadFrameLength := .ofNat number } } takes remaining allowed whole
      refine called.mono ?_
      intro out called
      exact .began fresh split announced
        ⟨called.allowed, called.whole, called.ran, called.calls, called.cleared, called.taken⟩
    · have short : rest.length < (UInt32.ofNat number).toNat := Nat.lt_of_not_le whole
      rw [readFrame_short remaining short]
      exact (returns_ok _ _).mpr (.announced fresh split announced allowed short rfl ⟨rfl, rfl, rfl, remaining⟩)

theorem read_turn (takes : TakesBytes cap decodeFrame) (held : Represents cap r.input.content r.input)
    (allowed : r.pipe.nextReadFrameLength ≤ r.pipe.maxReadSize) :
    Returns (read decodeFrame r) fun out => Turn cap decodeFrame r out.1 out.2 := by
  by_cases fresh : r.pipe.nextReadFrameLength = 0
  · obtain ⟨⟨result, input⟩, ran, answer, remaining⟩ := readVarInt_represents held
    simp only at answer remaining
    subst answer
    have reading := Base128.decode_reading 5 r.input.content
    generalize content_eq : r.input.content = content at reading ran remaining
    generalize Base128.decode 5 content = outcome at reading ran remaining
    have unchanged : r.pipe = { r.pipe with nextReadFrameLength := 0 } := by rw [← fresh]
    cases reading with
    | @complete groups rest last continued ends within =>
      refine read_length takes fresh ?_ ⟨continued.terminated ends, ?_, rfl⟩ remaining ran
      · rw [content_eq, List.append_assoc, List.singleton_append, Base128.Outcome.rest]
      · rw [List.length_append]
        exact within
    | incomplete continued short =>
      simp only [read, if_pos fresh, ran, ok_bind, varIntResult]
      exact (returns_ok _ _).mpr (.cut fresh (content_eq ▸ continued) (content_eq ▸ short) rfl
        ⟨unchanged, rfl, rfl, remaining⟩)
    | overlong continued full =>
      simp only [read, if_pos fresh, ran, ok_bind, varIntResult]
      exact (returns_ok _ _).mpr (.overlong fresh content_eq continued full rfl
        ⟨unchanged, rfl, rfl, remaining⟩)
  · rw [read, if_neg fresh]
    by_cases whole : r.pipe.nextReadFrameLength.toNat ≤ r.input.content.length
    · exact (readFrame_called takes held allowed whole).mono fun out called => .resumed fresh called
    · have short := Nat.lt_of_not_le whole
      rw [readFrame_short held short]
      exact (returns_ok _ _).mpr (.waited fresh short rfl rfl)

/-! ### Runs -/

/-- What the unread bytes become, all the bytes become. -/
theorem Parted.extend {next : UInt32} {unread : List UInt8} {further : List DecodeCall}
    (parted : Parted maxReadSize saved content stream calls)
    (tail : ∀ header, Pending maxReadSize saved header →
      Parted maxReadSize next unread (header ++ content ++ more) further) :
    Parted maxReadSize next unread (stream ++ more) (calls ++ further) := by
  induction parted with
  | unread pending => exact tail _ pending
  | unusable unusable later ih =>
    rw [List.append_assoc]
    exact .unusable unusable ih
  | @frame header taken stream call calls announced allowed whole follows later ih =>
    have further := List.prefix_append (taken ++ stream) more
    rw [List.append_assoc, List.append_assoc]
    rw [List.append_assoc] at further
    exact .frame announced allowed whole (follows.trans further) ih

/-- The same where no more bytes arrive. -/
theorem Parted.replace {next : UInt32} {unread : List UInt8} {further : List DecodeCall}
    (parted : Parted maxReadSize saved content stream calls)
    (tail : ∀ header, Pending maxReadSize saved header →
      Parted maxReadSize next unread (header ++ content) further) :
    Parted maxReadSize next unread stream (calls ++ further) := by
  rw [← List.append_nil stream]
  apply parted.extend
  intro header pending
  rw [List.append_nil]
  exact tail header pending

theorem Parted.bounded (parted : Parted maxReadSize saved content stream calls) : saved ≤ maxReadSize := by
  induction parted with
  | unread pending =>
    unfold Pending at pending
    split at pending
    · rename_i fresh
      rw [fresh]
      exact UInt32.zero_le
    · exact pending.2
  | unusable _ _ ih => exact ih
  | frame _ _ _ _ _ ih => exact ih

theorem Pending.none (pending : Pending maxReadSize saved header) (fresh : saved = 0) : header = [] := by
  rwa [Pending, if_pos fresh] at pending

theorem Pending.some (pending : Pending maxReadSize saved header) (announced : saved ≠ 0) :
    IsLength header saved := by
  rw [Pending, if_neg announced] at pending
  exact pending.1

/-- Bytes of which none has been read. -/
theorem parted_unread (maxReadSize : UInt32) (content : List UInt8) : Parted maxReadSize 0 content content [] := by
  have pending : Pending maxReadSize 0 [] := by rw [Pending, if_pos rfl]
  exact .unread pending

/-- The states of a pipe, with all bytes that arrived, however they were written. -/
inductive Received (cap : Nat) (decodeFrame : DecodeFrame δ) (maxReadSize : UInt32) : List UInt8 → Reader δ → Prop
  | start (heap : Nat → Block UInt8) (decoder : δ) :
      Received cap decodeFrame maxReadSize [] (.start heap cap maxReadSize decoder)
  | arrived {stream bytes : List UInt8} {r : Reader δ} {input : ByteBufferImpl}
      (received : Received cap decodeFrame maxReadSize stream r)
      (appended : Represents cap (r.input.content ++ bytes) input) :
      Received cap decodeFrame maxReadSize (stream ++ bytes) { r with input := input }
  | read {stream : List UInt8} {r after : Reader δ} {answer : Errorable Nat}
      (received : Received cap decodeFrame maxReadSize stream r)
      (ran : read decodeFrame r = .ok (answer, after)) : Received cap decodeFrame maxReadSize stream after

/-- What holds between the operations. -/
structure Sound (cap : Nat) (maxReadSize : UInt32) (stream : List UInt8) (r : Reader δ) : Prop where
  held : Represents cap r.input.content r.input
  limit : r.pipe.maxReadSize = maxReadSize
  parted : Parted maxReadSize r.pipe.nextReadFrameLength r.input.content stream r.calls

theorem Sound.turn (sound : Sound cap maxReadSize stream r) (takes : TakesBytes cap decodeFrame) :
    Returns (read decodeFrame r) fun out => Turn cap decodeFrame r out.1 out.2 := by
  apply read_turn takes sound.held
  rw [sound.limit]
  exact sound.parted.bounded

theorem Sound.arrive {input : ByteBufferImpl} (sound : Sound cap maxReadSize stream r)
    (appended : Represents cap (r.input.content ++ bytes) input) :
    Sound cap maxReadSize (stream ++ bytes) { r with input := input } := by
  refine ⟨appended.content ▸ appended, sound.limit, ?_⟩
  rw [appended.content, ← List.append_nil r.calls]
  apply sound.parted.extend
  intro header pending
  rw [List.append_assoc]
  exact .unread pending

/-- Where nothing was handed over, the unread bytes alone are parted otherwise. -/
theorem Sound.uncalled {rest : List UInt8} (sound : Sound cap maxReadSize stream r)
    (left : Uncalled cap r length rest after)
    (tail : ∀ header, Pending maxReadSize r.pipe.nextReadFrameLength header →
      Parted maxReadSize length rest (header ++ r.input.content) []) : Sound cap maxReadSize stream after := by
  refine ⟨left.held.content ▸ left.held, ?_, ?_⟩
  · rw [left.pipe]
    exact sound.limit
  · rw [left.pipe, left.held.content, left.calls, ← List.append_nil r.calls]
    exact sound.parted.replace tail

/-- A frame that was handed over follows its length, wherever that was read. -/
theorem Sound.called {answer : Errorable Nat} (sound : Sound cap maxReadSize stream r)
    (called : Called cap decodeFrame r length bytes answer after)
    (tail : ∀ header, Pending maxReadSize r.pipe.nextReadFrameLength header →
      ∃ announced, IsLength announced length ∧ header ++ r.input.content = announced ++ bytes) :
    Sound cap maxReadSize stream after := by
  obtain ⟨rest, ⟨taken, split⟩, held⟩ := called.taken
  refine ⟨held.content ▸ held, ?_, ?_⟩
  · rw [called.cleared]
    exact sound.limit
  · rw [called.cleared, held.content, called.calls]
    apply sound.parted.replace
    intro header pending
    obtain ⟨announced, isLength, same⟩ := tail header pending
    rw [same, ← split]
    refine .frame isLength (sound.limit ▸ called.allowed) ?_ ?_ (parted_unread maxReadSize rest)
    · exact List.length_take_of_le (split ▸ called.whole)
    · exact List.take_prefix _ _

theorem Sound.keep {answer : Errorable Nat} (sound : Sound cap maxReadSize stream r)
    (turn : Turn cap decodeFrame r answer after) : Sound cap maxReadSize stream after := by
  cases turn with
  | cut fresh continued short incomplete left =>
    apply sound.uncalled left
    intro header pending
    have unusable : Unusable maxReadSize r.input.content := .inl ⟨continued, Nat.le_of_lt short⟩
    rw [pending.none fresh, List.nil_append, ← List.append_nil r.input.content]
    exact .unusable unusable (parted_unread maxReadSize [])
  | overlong fresh split continued full invalid left =>
    apply sound.uncalled left
    intro header pending
    rw [pending.none fresh, split, List.nil_append]
    exact .unusable (.inl ⟨continued, Nat.le_of_eq full⟩) (parted_unread maxReadSize _)
  | tooLarge fresh split announced large invalid left =>
    apply sound.uncalled left
    intro header pending
    rw [pending.none fresh, split, List.nil_append]
    exact .unusable (.inr ⟨_, announced, sound.limit ▸ large⟩) (parted_unread maxReadSize _)
  | announced fresh split announced allowed short incomplete left =>
    apply sound.uncalled left
    intro header pending
    rw [pending.none fresh, split]
    apply Parted.unread
    rw [Pending, if_neg ?_]
    · exact ⟨announced, sound.limit ▸ allowed⟩
    · rintro rfl
      exact absurd short (Nat.not_lt_zero _)
  | began fresh split announced called =>
    apply sound.called called
    intro header pending
    rw [pending.none fresh, split]
    exact ⟨_, announced, rfl⟩
  | waited announced short incomplete same => exact same ▸ sound
  | resumed announced called =>
    apply sound.called called
    intro header pending
    exact ⟨header, pending.some announced, rfl⟩

theorem Received.sound (received : Received cap decodeFrame maxReadSize stream r) (positive : 0 < cap)
    (takes : TakesBytes cap decodeFrame) : Sound cap maxReadSize stream r := by
  induction received with
  | start heap decoder =>
    have held := represents_new heap positive
    exact ⟨held.content ▸ held, rfl, held.content ▸ parted_unread maxReadSize []⟩
  | arrived _ appended ih => exact ih.arrive appended
  | read _ ran ih =>
    obtain ⟨out, same, turn⟩ := ih.turn takes
    cases ran.symm.trans same
    exact ih.keep turn

/-- What `WriteBytes` appends arrives. -/
theorem Received.write {input : ByteBufferImpl} (received : Received cap decodeFrame maxReadSize stream r)
    (positive : 0 < cap) (takes : TakesBytes cap decodeFrame) (wrote : r.input.writeBytes bytes = .ok input) :
    Received cap decodeFrame maxReadSize (stream ++ bytes) { r with input := input } := by
  obtain ⟨after, same, appended⟩ := writeBytes_represents (received.sound positive takes).held bytes
  cases wrote.symm.trans same
  exact .arrived received appended

/-- Whatever arrives, and whatever the decoder answers and takes: every frame that was
handed over is whole, allowed, and right behind its own length, and the next `Read` ends
in one of its seven ways. -/
theorem frames_handed_over_whole (positive : 0 < cap) (takes : TakesBytes cap decodeFrame)
    (received : Received cap decodeFrame maxReadSize stream r) :
    Parted maxReadSize r.pipe.nextReadFrameLength r.input.content stream r.calls ∧
      Returns (read decodeFrame r) fun out => Turn cap decodeFrame r out.1 out.2 := by
  have sound := received.sound positive takes
  exact ⟨sound.parted, sound.turn takes⟩

/-- A decoder that refuses every frame and leaves its bytes. -/
private def refuseFrame : DecodeFrame Unit := fun decoder input frameSize =>
  pure (invalidByteFrameErrorable frameSize.toUInt64, decoder, input)

private theorem refuseFrame_takes (cap : Nat) : TakesBytes cap refuseFrame := by
  intro decoder input bytes frameSize held _
  exact (returns_ok _ _).mpr ⟨bytes, List.suffix_refl bytes, held⟩

/-- A length of 2 with one byte behind it, and the other one after a first `Read`. -/
theorem refused_frame_handed_over : ∃ r : Reader Unit, Received 4 refuseFrame 10 ([2, 7] ++ [8]) r ∧
    r.calls = [⟨2, [7, 8]⟩] ∧ r.pipe.nextReadFrameLength = 0 ∧
    Parted 10 r.pipe.nextReadFrameLength r.input.content ([2, 7] ++ [8]) r.calls ∧
    Returns (read refuseFrame r) fun out => Turn 4 refuseFrame r out.1 out.2 := by
  have positive : 0 < 4 := by decide
  have takes := refuseFrame_takes 4
  obtain ⟨first, wrote, held⟩ := writeBytes_represents (represents_new (fun _ _ => 0) positive) [2, 7]
  obtain ⟨⟨answer, behind⟩, ran, rfl, remaining⟩ := readVarInt_represents held
  obtain ⟨second, wroteMore, heldMore⟩ := writeBytes_represents remaining [8]
  let waiting : Reader Unit := ⟨⟨2, 10⟩, (), behind, []⟩
  have allowed : (2 : UInt32) ≤ 10 := by decide
  have short : [7].length < (2 : UInt32).toNat := by decide
  have whole : (2 : UInt32).toNat ≤ [7, 8].length := by decide
  have announced : read refuseFrame ⟨⟨0, 10⟩, (), first, []⟩ = .ok (incompleteByteFrameErrorable 2, waiting) :=
    (read_saves rfl allowed ran).trans (readFrame_short remaining short)
  obtain ⟨⟨reply, last⟩, readLast, called⟩ := @readFrame_called _ _ _ _ { waiting with input := second }
    takes heldMore allowed whole
  have received : Received 4 refuseFrame 10 ([2, 7] ++ [8]) last :=
    .read (.write (.read (.write (.start _ ()) positive takes wrote) announced) positive takes wroteMore) readLast
  refine ⟨last, received, called.calls, ?_, frames_handed_over_whole positive takes received⟩
  rw [called.cleared]

end ShipNet.FramedByteBytePipe
