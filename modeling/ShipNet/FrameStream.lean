import ShipNet.CodecProofs
import ShipNet.FramedPipe
import ShipNet.Framing

/-! `FramedByteBytePipe::Read` delivers what a reader of frames delivers, and so
the same frames for every way to split the stream into arrivals, exactly as long
as no arrival ends inside the length of a frame. -/
namespace ShipNet.FramedByteBytePipe
open Fallible ByteBufferImpl

/-- A length is taken modulo 2^32, as far as it is allowed. -/
def acceptLength (maxReadSize : UInt32) (number : Nat) : Option Nat :=
  if number % 2 ^ 32 ≤ maxReadSize.toNat then some (number % 2 ^ 32) else none

/-- The call for a frame. -/
def callOf (frame : List UInt8) : DecodeCall := ⟨.ofNat frame.length, frame⟩

/-- `DecodeFrame` succeeds and takes the frame, no more and no less. -/
def ConsumesFrames {δ : Type} (decodeFrame : DecodeFrame δ) : Prop :=
  ∀ (decoder : δ) (input : ByteBufferImpl) (cap : Nat) (bytes : List UInt8) (frameSize : UInt32),
    Represents cap bytes input → frameSize.toNat ≤ bytes.length →
    Returns (decodeFrame decoder input frameSize) fun out =>
      out.1.isSuccess = true ∧ Represents cap (bytes.drop frameSize.toNat) out.2.2

variable {δ : Type} {decodeFrame : DecodeFrame δ} {cap : Nat} {bytes : List UInt8} {r : Reader δ}

/-- What reads leave behind: these further calls, and this state. -/
structure Reached (cap : Nat) (r : Reader δ) (calls : List (List UInt8)) (held : Framing.Held)
    (out : Reader δ) : Prop where
  calls : out.calls = r.calls ++ calls.map callOf
  pending : out.pipe.nextReadFrameLength.toNat = held.pending
  maxReadSize : out.pipe.maxReadSize = r.pipe.maxReadSize
  held : Represents cap held.bytes out.input

theorem readFrame_short (held : Represents cap bytes r.input)
    (short : bytes.length < r.pipe.nextReadFrameLength.toNat) :
    readFrame decodeFrame r =
      .ok (incompleteByteFrameErrorable r.pipe.nextReadFrameLength.toUInt64, r) := by
  have notYet : ¬ r.input.readableBytes ≥ r.pipe.nextReadFrameLength.toNat := by
    rw [held.readable]
    omega
  simp only [readFrame, if_neg notYet, pure_is_ok]

theorem readFrame_complete (consumes : ConsumesFrames decodeFrame) (held : Represents cap bytes r.input)
    (enough : r.pipe.nextReadFrameLength.toNat ≤ bytes.length) :
    Returns (readFrame decodeFrame r) fun out => out.1.typeOrdinal = .success ∧
      Reached cap r [bytes.take r.pipe.nextReadFrameLength.toNat]
        ⟨0, bytes.drop r.pipe.nextReadFrameLength.toNat⟩ out.2 := by
  have there : r.input.readableBytes ≥ r.pipe.nextReadFrameLength.toNat := by
    rw [held.readable]
    exact enough
  simp only [readFrame, if_pos there]
  refine (consumes r.decoder r.input cap bytes _ held enough).bind ?_
  rintro ⟨result, decoder, input⟩ ⟨success, remaining⟩
  refine (returns_ok _ _).mpr ⟨of_decide_eq_true success, ?_, rfl, rfl, remaining⟩
  simp only [held.content, List.map_cons, List.map_nil, callOf, List.length_take, Nat.min_eq_left enough,
    UInt32.ofNat_toNat]

/-- One `Read` against the reader of frames: it stops where that one stops, or
makes a part of what that one makes. -/
inductive Progress (cap : Nat) (r : Reader δ) (pending : Nat) (bytes : List UInt8)
    (out : Errorable Nat × Reader δ) : Prop
  | stopped (left : Framing.Held) (incomplete : out.1.typeOrdinal = .incompleteByteFrame)
      (reached : Reached cap r [] left out.2)
      (parsed : Framing.parse 4 (acceptLength r.pipe.maxReadSize) pending bytes = ([], left))
  | passed (delivered : List (List UInt8)) (rest : List UInt8)
      (further : out.1.typeOrdinal ≠ .incompleteByteFrame) (shorter : rest.length < bytes.length)
      (reached : Reached cap r delivered ⟨0, rest⟩ out.2)
      (parsed : Framing.parse 4 (acceptLength r.pipe.maxReadSize) pending bytes =
        (delivered ++ (Framing.parse 4 (acceptLength r.pipe.maxReadSize) 0 rest).1,
          (Framing.parse 4 (acceptLength r.pipe.maxReadSize) 0 rest).2))

/-- A length that is there to be read. -/
private theorem read_header_progress (consumes : ConsumesFrames decodeFrame) {input : ByteBufferImpl}
    {number : Nat} {rest : List UInt8} (found : Base128.decode 5 bytes = .complete number rest)
    (fresh : r.pipe.nextReadFrameLength = 0) (remaining : Represents cap rest input) :
    Returns (if UInt32.ofNat number > r.pipe.maxReadSize then
        pure (invalidByteFrameErrorable (UInt32.ofNat number).toUInt64, { r with input := input })
      else readFrame decodeFrame { r with
        input := input
        pipe := { r.pipe with nextReadFrameLength := .ofNat number } })
      (Progress cap r 0 bytes) := by
  have shorter : rest.length < bytes.length :=
    Base128.decode_rest_lt_of_ne (by decide) found (by simp)
  have length : (UInt32.ofNat number).toNat = number % 2 ^ 32 := UInt32.toNat_ofNat'
  by_cases large : UInt32.ofNat number > r.pipe.maxReadSize
  · have rejected : acceptLength r.pipe.maxReadSize number = none := by
      have above : r.pipe.maxReadSize.toNat < (UInt32.ofNat number).toNat := large
      rw [length] at above
      rw [acceptLength, if_neg (Nat.not_le.mpr above)]
    rw [if_pos large]
    refine (returns_ok _ _).mpr (.passed [] rest (by simp [invalidByteFrameErrorable]) shorter
      ⟨by simp, by simp [fresh], rfl, remaining⟩ ?_)
    exact Framing.parse_rejected found rejected
  · have accepted : acceptLength r.pipe.maxReadSize number = some (number % 2 ^ 32) := by
      have within : (UInt32.ofNat number).toNat ≤ r.pipe.maxReadSize.toNat := Nat.le_of_not_lt large
      rw [length] at within
      rw [acceptLength, if_pos within]
    rw [if_neg large]
    by_cases there : number % 2 ^ 32 ≤ rest.length
    · have complete := readFrame_complete (r := { r with
        input := input
        pipe := { r.pipe with nextReadFrameLength := .ofNat number } }) consumes remaining (by
          simp only [length]
          exact there)
      refine complete.mono ?_
      rintro ⟨result, after⟩ ⟨success, reached⟩
      have parsed := Framing.parse_announced found accepted there
      simp only [length] at reached
      refine .passed _ _ (by rw [success]; simp) ?_
        ⟨reached.calls, reached.pending, reached.maxReadSize, reached.held⟩ parsed
      rw [List.length_drop]
      omega
    · have short := Nat.lt_of_not_le there
      rw [readFrame_short remaining (by simp only [length]; exact short)]
      exact (returns_ok _ _).mpr (.stopped ⟨_, rest⟩ rfl ⟨by simp, length, rfl, remaining⟩
        (Framing.parse_announced_short found accepted short))

theorem read_progress (consumes : ConsumesFrames decodeFrame) (held : Represents cap bytes r.input) :
    Returns (read decodeFrame r) (Progress cap r r.pipe.nextReadFrameLength.toNat bytes) := by
  unfold read
  by_cases fresh : r.pipe.nextReadFrameLength = 0
  · have pending : r.pipe.nextReadFrameLength.toNat = 0 := by rw [fresh]; rfl
    rw [if_pos fresh, pending]
    refine (readVarInt_represents held).bind ?_
    rintro ⟨result, input⟩ ⟨answer, remaining⟩
    simp only at answer remaining
    subst answer
    cases found : Base128.decode 5 bytes with
    | incomplete =>
      rw [found] at remaining
      exact (returns_ok _ _).mpr (.stopped ⟨0, []⟩ rfl ⟨by simp, pending, rfl, remaining⟩
        (Framing.parse_incomplete found))
    | overlong number rest =>
      rw [found] at remaining
      have shorter : rest.length < bytes.length :=
        Base128.decode_rest_lt_of_ne (by decide) found (by simp)
      exact (returns_ok _ _).mpr (.passed [] rest (by simp [invalidByteFrameErrorable]) shorter
        ⟨by simp, pending, rfl, remaining⟩ (Framing.parse_overlong found))
    | complete number rest =>
      rw [found] at remaining
      exact read_header_progress consumes found fresh remaining
  · have announced : r.pipe.nextReadFrameLength.toNat ≠ 0 := by
      intro zero
      exact fresh (UInt32.toNat_inj.mp zero)
    rw [if_neg fresh]
    by_cases there : r.pipe.nextReadFrameLength.toNat ≤ bytes.length
    · refine (readFrame_complete consumes held there).mono ?_
      rintro ⟨result, after⟩ ⟨success, reached⟩
      refine .passed _ _ (by rw [success]; simp) ?_ reached (Framing.parse_pending announced there)
      rw [List.length_drop]
      omega
    · have short := Nat.lt_of_not_le there
      rw [readFrame_short held short]
      exact (returns_ok _ _).mpr (.stopped ⟨_, bytes⟩ rfl ⟨by simp, rfl, rfl, held⟩
        (Framing.parse_short announced short))

/-- Reads until one is incomplete make all that the reader of frames makes. -/
theorem readUntilIncomplete_parse (consumes : ConsumesFrames decodeFrame)
    (held : Represents cap bytes r.input) {pending : Nat}
    (announced : r.pipe.nextReadFrameLength.toNat = pending) :
    Returns (readUntilIncomplete decodeFrame r)
      (Reached cap r (Framing.parse 4 (acceptLength r.pipe.maxReadSize) pending bytes).1
        (Framing.parse 4 (acceptLength r.pipe.maxReadSize) pending bytes).2) := by
  have rounds (fuel : Nat) : ∀ (bytes : List UInt8) (r : Reader δ), Represents cap bytes r.input →
      bytes.length < fuel → Returns (loop .endless (readRound decodeFrame) fuel r)
        (Reached cap r
          (Framing.parse 4 (acceptLength r.pipe.maxReadSize) r.pipe.nextReadFrameLength.toNat bytes).1
          (Framing.parse 4 (acceptLength r.pipe.maxReadSize) r.pipe.nextReadFrameLength.toNat bytes).2) := by
    induction fuel with
    | zero =>
      intro bytes r _ enough
      omega
    | succ fuel ih =>
      intro bytes r held enough
      obtain ⟨⟨result, after⟩, ran, progress⟩ := read_progress consumes held
      cases progress with
      | stopped left incomplete reached parsed =>
        have incomplete : result.typeOrdinal = .incompleteByteFrame := incomplete
        simp only [loop, readRound, ran, incomplete, if_true, ok_bind, pure_is_ok, returns_ok, parsed]
        exact reached
      | passed delivered rest further shorter reached parsed =>
        have further : result.typeOrdinal ≠ .incompleteByteFrame := further
        have fresh : after.pipe.nextReadFrameLength.toNat = 0 := reached.pending
        have sameMax : after.pipe.maxReadSize = r.pipe.maxReadSize := reached.maxReadSize
        have later := ih rest after reached.held (by omega)
        rw [fresh, sameMax] at later
        simp only [loop, readRound, ran, further, if_false, ok_bind, pure_is_ok, parsed]
        refine later.mono ?_
        intro final remaining
        refine ⟨?_, remaining.pending, remaining.maxReadSize.trans sameMax, remaining.held⟩
        rw [remaining.calls, reached.calls, List.map_append, List.append_assoc]
  have all := rounds (r.input.readableBytes + 1) bytes r held (by rw [held.readable]; omega)
  rwa [announced] at all

/-- Arrivals one after another are pieces fed to the reader of frames. -/
theorem deliver_feed (consumes : ConsumesFrames decodeFrame) (held : Framing.Held)
    (represents : Represents cap held.bytes r.input)
    (announced : r.pipe.nextReadFrameLength.toNat = held.pending) (arrivals : List (List UInt8)) :
    Returns (deliver decodeFrame r arrivals) fun out => out.calls =
      r.calls ++ (Framing.feed 4 (acceptLength r.pipe.maxReadSize) held arrivals).map callOf := by
  induction arrivals generalizing r held with
  | nil => simp [deliver, Framing.feed]
  | cons arrival later ih =>
    obtain ⟨input, wrote, appended⟩ := writeBytes_represents represents arrival
    obtain ⟨after, ran, reached⟩ := readUntilIncomplete_parse (r := { r with input := input })
      consumes appended announced
    have rest := ih _ reached.held reached.pending
    simp only [deliver, wrote, ran, ok_bind]
    refine rest.mono ?_
    intro final calls
    rw [calls, reached.calls, reached.maxReadSize, Framing.feed, List.map_append, List.append_assoc]

theorem acceptLength_within {maxReadSize : UInt32} {number : Nat} (within : number ≤ maxReadSize.toNat) :
    acceptLength maxReadSize number = some number := by
  have bound := maxReadSize.toNat_lt
  have small : number % 2 ^ 32 = number := Nat.mod_eq_of_lt (Nat.lt_of_le_of_lt within bound)
  rw [acceptLength, small, if_pos within]

theorem acceptLength_le {maxReadSize : UInt32} {number length : Nat}
    (accepted : acceptLength maxReadSize number = some length) : length ≤ maxReadSize.toNat := by
  unfold acceptLength at accepted
  by_cases within : number % 2 ^ 32 ≤ maxReadSize.toNat
  · rw [if_pos within] at accepted
    cases accepted
    exact within
  · rw [if_neg within] at accepted
    cases accepted

theorem callOf_injective : Function.Injective callOf := by
  intro first second same
  exact congrArg DecodeCall.frame same

/-- Frames of a stream: a length that `ReadVarInt` takes, and no more bytes than allowed. -/
def Allowed (maxReadSize : UInt32) (frame : Framing.Frame) : Prop :=
  frame.header.length ≤ 5 ∧ frame.body.length ≤ maxReadSize.toNat

theorem Allowed.fits {maxReadSize : UInt32} {frame : Framing.Frame} (allowed : Allowed maxReadSize frame) :
    frame.Fits 4 (acceptLength maxReadSize) :=
  ⟨allowed.1, acceptLength_within allowed.2⟩

/-- A stream of frames split into arrivals leads to the calls of `DecodeFrame`
to which it leads in one arrival, exactly if no arrival ends inside the length
of a frame with a body. In one arrival there is one call for each frame. -/
theorem split_stream_decodes_alike_iff (consumes : ConsumesFrames decodeFrame) (heap : Nat → Block UInt8)
    (positive : 0 < cap) (maxReadSize : UInt32) (decoder : δ) (frames : List Framing.Frame)
    (allowed : ∀ frame ∈ frames, Allowed maxReadSize frame) (arrivals : List (List UInt8))
    (partition : arrivals.flatten = Framing.stream frames) :
    ∃ split whole,
      deliver decodeFrame (.start heap cap maxReadSize decoder) arrivals = .ok split ∧
      deliver decodeFrame (.start heap cap maxReadSize decoder) [Framing.stream frames] = .ok whole ∧
      whole.calls = frames.map (fun frame => callOf frame.body) ∧
      (split.calls = whole.calls ↔
        ∀ position ∈ Framing.boundaries arrivals, ¬ Framing.SplitsHeader frames position) := by
  have fits : ∀ frame ∈ frames, frame.Fits 4 (acceptLength maxReadSize) :=
    fun frame member => (allowed frame member).fits
  have represents : Represents cap [] (Reader.start heap cap maxReadSize decoder).input :=
    represents_new heap positive
  obtain ⟨split, ranSplit, splitCalls⟩ :=
    deliver_feed consumes ⟨0, []⟩ represents rfl arrivals
  obtain ⟨whole, ranWhole, wholeCalls⟩ :=
    deliver_feed consumes ⟨0, []⟩ represents rfl [Framing.stream frames]
  have start : (Reader.start heap cap maxReadSize decoder).calls = [] := rfl
  have sameMax : (Reader.start heap cap maxReadSize decoder).pipe.maxReadSize = maxReadSize := rfl
  rw [start, sameMax, List.nil_append] at splitCalls wholeCalls
  rw [Framing.feed_whole fits, List.map_map] at wholeCalls
  have iff := Framing.feed_stream_iff (fun number within => acceptLength_within within)
    (fun number length accepted => acceptLength_le accepted) fits partition
  refine ⟨split, whole, ranSplit, ranWhole, wholeCalls, ?_⟩
  rw [splitCalls, wholeCalls, ← List.map_map, ← iff]
  exact (List.map_injective_iff.mpr callOf_injective).eq_iff

/-- A decoder that reads its frame byte by byte. -/
private def skimFrame : DecodeFrame Unit := fun decoder input frameSize => do
  let input ← input.skim frameSize.toNat
  pure (successErrorable frameSize.toNat, decoder, input)

private theorem skimFrame_consumes : ConsumesFrames skimFrame := by
  intro decoder input cap bytes frameSize held enough
  obtain ⟨after, ran, remaining⟩ := skim_represents held enough
  simp only [skimFrame, ran, ok_bind, pure_is_ok, returns_ok]
  exact ⟨rfl, remaining⟩

/-- Two frames whose arrivals end inside a body and after a length. -/
theorem split_stream_decodes_alike_within_bodies : ∃ split,
    deliver skimFrame (.start (fun _ _ => 0) 2 10 ()) [[3, 7], [8, 9, 1], [5]] = .ok split ∧
      split.calls = [⟨3, [7, 8, 9]⟩, ⟨1, [5]⟩] := by
  have terminated : Base128.Terminated [3] ∧ Base128.Terminated [1] := by
    constructor
    · exact (by decide : (3 : UInt8).toNat < 128)
    · exact (by decide : (1 : UInt8).toNat < 128)
  obtain ⟨split, whole, ranSplit, -, wholeCalls, alike⟩ :=
    split_stream_decodes_alike_iff skimFrame_consumes (fun _ _ => 0) (by decide : 0 < 2) 10 ()
      [⟨[3], [7, 8, 9], terminated.1, rfl⟩, ⟨[1], [5], terminated.2, rfl⟩]
      (by simp [Allowed]) [[3, 7], [8, 9, 1], [5]] rfl
  refine ⟨split, ranSplit, ?_⟩
  rw [alike.mpr (by simp [Framing.boundaries, Framing.SplitsHeader, Framing.Frame.bytes]), wholeCalls]
  rfl

/-- A frame of 128 bytes, with its length in two bytes. -/
private def longFrame : Framing.Frame where
  header := [0x80, 0x01]
  body := List.replicate 128 0
  terminated := ⟨by decide, (by decide : (1 : UInt8).toNat < 128)⟩
  announces := by
    rw [List.length_replicate]
    decide

/-- A length split in two is read as a smaller one. -/
theorem split_length_decodes_otherwise :
    ¬ ∀ (δ : Type) (decodeFrame : DecodeFrame δ) (heap : Nat → Block UInt8) (cap : Nat)
        (maxReadSize : UInt32) (decoder : δ) (frames : List Framing.Frame) (arrivals : List (List UInt8)),
      ConsumesFrames decodeFrame → 0 < cap → (∀ frame ∈ frames, Allowed maxReadSize frame) →
      arrivals.flatten = Framing.stream frames →
      ∃ split whole,
        deliver decodeFrame (.start heap cap maxReadSize decoder) arrivals = .ok split ∧
        deliver decodeFrame (.start heap cap maxReadSize decoder) [Framing.stream frames] = .ok whole ∧
        split.calls = whole.calls := by
  intro alike
  have allowed : ∀ frame ∈ [longFrame], Allowed 1000 frame := by
    simp [Allowed, longFrame]
  obtain ⟨split, whole, ranSplit, ranWhole, same⟩ := alike Unit skimFrame (fun _ _ => 0) 16 1000 ()
    [longFrame] [[0x80], 0x01 :: List.replicate 128 0] skimFrame_consumes (by decide) allowed rfl
  have represents : Represents 16 [] (Reader.start (fun _ _ => 0) 16 1000 ()).input :=
    represents_new _ (by decide)
  obtain ⟨_, delivered, splitCalls⟩ := deliver_feed skimFrame_consumes ⟨0, []⟩ represents rfl
    [[0x80], 0x01 :: List.replicate 128 0]
  obtain ⟨_, deliveredWhole, wholeCalls⟩ := deliver_feed skimFrame_consumes ⟨0, []⟩ represents rfl
    [Framing.stream [longFrame]]
  rw [ranSplit, Except.ok.injEq] at delivered
  rw [ranWhole, Except.ok.injEq] at deliveredWhole
  subst delivered deliveredWhole
  rw [same, wholeCalls, List.append_cancel_left_eq, (List.map_injective_iff.mpr callOf_injective).eq_iff]
    at splitCalls
  -- the first byte of the length is lost, and the second one announces a body of one byte
  have lost : Base128.decode 5 ([] ++ [0x80]) = .incomplete := rfl
  have next : ∃ body tail, Framing.feed 4 (acceptLength 1000) ⟨0, []⟩ [0x01 :: List.replicate 128 0] =
      body :: tail ∧ body.length ≤ Base128.value [0x01] :=
    Framing.feed_header_rest (fun number within => acceptLength_within within) (List.replicate 128 0)
      (by decide : (1 : UInt8).toNat < 128) (by decide) (by decide)
      (by rw [List.length_replicate]; decide) rfl
  obtain ⟨body, tail, found, length⟩ := next
  have sameMax : (Reader.start (fun _ _ => 0) 16 1000 ()).pipe.maxReadSize = 1000 := rfl
  rw [sameMax, Framing.feed_whole (fun frame member => (allowed frame member).fits), Framing.feed,
    Framing.parse_incomplete lost, List.nil_append, found] at splitCalls
  have sameBody := (List.cons.inj splitCalls).1
  rw [← sameBody, longFrame, List.length_replicate] at length
  exact absurd length (by decide)

end ShipNet.FramedByteBytePipe
