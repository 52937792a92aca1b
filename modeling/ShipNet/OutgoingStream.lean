import ShipNet.ByteBufferQueue
import ShipNet.UnixReadWriteCloser

/-! The outgoing side of a connection: what is given to `WriteDirect` leaves
through `Flush`, a `write` at a time. As long as every accepted `write` starts
at the beginning of a segment that is not the last one to be used up, the bytes
accepted and the bytes still buffered are the bytes given. -/
namespace ShipNet
open Fallible UnixReadWriteCloser

namespace ByteBufferImpl

/-- Skipping within the first segment, from its beginning. The index is assigned,
so nothing may have been read before; a segment used up is popped, so another one
must follow. -/
theorem skipReadBytes_represents {s : ByteBufferImpl} {cap count : Nat} {bytes : List UInt8}
    (held : Represents cap bytes s) (start : s.localReaderIndex = 0) (enough : count ≤ bytes.length)
    (inside : count ≤ cap) (another : count < cap ∨ 1 < s.buffers.length) :
    Returns (s.skipReadBytes count) fun out =>
      Represents cap (bytes.drop count) out.2 ∧ out.2.localReaderIndex ≤ count := by
  have readable := held.readable
  have capacity := held.capacity
  have served : ¬ count > s.readableBytes := by omega
  have within : ¬ count > s.singleCapacity - s.localReaderIndex := by omega
  have noRound (fuel : Nat) : loop .endless skipRound (fuel + 1)
      ({ s with readableBytes := s.readableBytes - count }, count) =
        .ok ({ s with readableBytes := s.readableBytes - count }, count) := by
    simp only [loop, skipRound, whileRound, within, decide_false, Bool.false_eq_true, if_false, pure_is_ok,
      ok_bind]
  simp only [skipReadBytes, if_neg served, noRound, ok_bind]
  by_cases short : count < cap
  · have advanced := advance_represents held count (by omega) enough
    rw [start, Nat.zero_add] at advanced
    have stays : ¬ count ≥ s.singleCapacity := by omega
    simp only [tryRefreshReaderBuffer, if_neg stays, pure_is_ok, ok_bind, returns_ok]
    exact ⟨advanced, Nat.le_refl _⟩
  · have edge : s.localReaderIndex + count = cap := by omega
    have passes : count ≥ s.singleCapacity := by omega
    have more : 1 < s.buffers.length := another.resolve_left short
    simp only [tryRefreshReaderBuffer, if_pos passes]
    refine (popBuffer_represents held count count edge enough more).bind ?_
    rintro after ⟨popped, index, -⟩
    exact (returns_ok _ _).mpr ⟨popped, by simp only [index]; exact Nat.zero_le _⟩

end ByteBufferImpl
open ByteBufferImpl

/-- The outgoing side of a `Connection`: the call of `Write` in its last `Flush`,
with `writerBuffer` and `readWriteCloser`, and the thread's `byteBufferWriteBuffer`. -/
structure Outgoing where
  scratch : Block UInt8
  call : WriteCall

namespace Outgoing

def new (heap : Nat → Block UInt8) (cap : Nat) (scratch : Block UInt8) : Outgoing where
  scratch := scratch
  call :=
    { closer := {}, buffer := .new heap cap, totalBytesWritten := 0, control := .returned (successErrorable 0) }

inductive Event where
  | writeDirect (buffer : ByteBufferImpl)
  | flush
  /-- The `write` that is waited for returns. -/
  | written (result : WriteResult)

/-- `WriteDirect(buffer)`, `Flush()` and the rest of a flush from an answer to the
next wait. The reply is what the system has taken. -/
def step (o : Outgoing) : Event → Exec (Outgoing × Fifo.Reply UInt8)
  | .writeDirect buffer => do
    let (writerBuffer, scratch, _) ← o.call.buffer.writeBytesFrom o.scratch buffer buffer.readableBytes
    pure ({ scratch := scratch, call := { o.call with buffer := writerBuffer } }, .pushed)
  | .flush => pure ({ o with call := write o.call.closer o.call.buffer }, .pushed)
  | .written (.failed errno) => do
    let call ← o.call.resume (.failed errno)
    pure ({ o with call := call }, .pushed)
  | .written (.accepted bytesWritten) => do
    let taken ← o.call.buffer.fetch o.call.buffer.localReaderIndex bytesWritten
    let call ← o.call.resume (.accepted bytesWritten)
    pure ({ o with call := call }, .pulled taken)

/-- The bytes given to `WriteDirect`. -/
def Event.given : Event → List UInt8
  | writeDirect buffer => buffer.content
  | flush | written _ => []

def Event.request : Event → Fifo.Request UInt8
  | writeDirect buffer => .push buffer.content
  | flush | written (.failed _) => .push []
  | written (.accepted bytesWritten) => .pull bytesWritten

/-- Calls come while none is running, with a buffer that holds something; an
answer comes while one is waited for, and keeps to the contract of `write`. -/
def Event.Possible (o : Outgoing) : Event → Prop
  | writeDirect buffer =>
    (∃ result, o.call.control = .returned result) ∧ buffer.WellFormed ∧ buffer.content ≠ []
  | flush => ∃ result, o.call.control = .returned result
  | written (.failed _) => ∀ result, o.call.control ≠ .returned result
  | written (.accepted bytesWritten) => 1 ≤ bytesWritten ∧ bytesWritten ≤ o.call.requested

/-- What the code copes with: the scratch array holds the bytes; the system takes
bytes from the beginning of a segment, and all of it only where another one follows. -/
def Event.Kept (o : Outgoing) : Event → Prop
  | writeDirect buffer => buffer.readableBytes ≤ maxPacketSize
  | flush | written (.failed _) => True
  | written (.accepted bytesWritten) => o.call.buffer.localReaderIndex = 0 ∧
    (bytesWritten < o.call.buffer.singleCapacity ∨ 1 < o.call.buffer.buffers.length)

end Outgoing

namespace UnixReadWriteCloser.WriteCall

/-- The tests that the waits stand behind. -/
def Waiting (call : WriteCall) : Prop :=
  match call.control with
  | .segments => call.buffer.singleCapacity - call.buffer.localReaderIndex ≤ call.buffer.readableBytes
  | .rest => call.buffer.readableBytes ≤ call.buffer.singleCapacity - call.buffer.localReaderIndex
  | .returned _ => True

variable {call : WriteCall}

/-- What is offered is readable, and in the first segment. -/
theorem Waiting.requested_le (waiting : call.Waiting) :
    call.requested ≤ call.buffer.readableBytes ∧
      call.requested ≤ call.buffer.singleCapacity - call.buffer.localReaderIndex := by
  unfold Waiting at waiting
  unfold requested
  cases control : call.control with
  | segments => simpa [control] using waiting
  | rest => simpa [control] using waiting
  | returned result => simp

theorem enterRest_waiting
    (short : call.buffer.readableBytes ≤ call.buffer.singleCapacity - call.buffer.localReaderIndex) :
    call.enterRest.Waiting ∧ call.enterRest.buffer = call.buffer := by
  unfold enterRest
  split
  · exact ⟨short, rfl⟩
  · exact ⟨trivial, rfl⟩

theorem enterSegments_waiting (call : WriteCall) :
    call.enterSegments.Waiting ∧ call.enterSegments.buffer = call.buffer := by
  unfold enterSegments
  split
  · rename_i full
    exact ⟨full, rfl⟩
  · rename_i short
    exact enterRest_waiting (by omega)

end UnixReadWriteCloser.WriteCall

theorem UnixReadWriteCloser.write_waiting (closer : UnixReadWriteCloser) (buffer : ByteBufferImpl) :
    (write closer buffer).Waiting ∧ (write closer buffer).buffer = buffer := by
  unfold write
  by_cases closed : closer.closed
  · simp only [closed, if_true, and_true]
    exact trivial
  · simp only [closed, Bool.false_eq_true, if_false]
    exact WriteCall.enterSegments_waiting _

namespace Outgoing

/-- The buffer holds `queue`, and a call in progress stands behind its test. -/
structure Holds (cap : Nat) (queue : List UInt8) (o : Outgoing) : Prop where
  held : Represents cap queue o.call.buffer
  waiting : o.call.Waiting

variable {cap : Nat} {queue : List UInt8} {o : Outgoing}

theorem holds_new (heap : Nat → Block UInt8) (positive : 0 < cap) (scratch : Block UInt8) :
    Holds cap [] (new heap cap scratch) :=
  ⟨represents_new heap positive, trivial⟩

/-- An accepted write takes its bytes from the front, and the call goes on. -/
private theorem accepted_holds (holds : Holds cap queue o) {bytesWritten : Nat}
    (possible : (Event.written (.accepted bytesWritten)).Possible o)
    (kept : (Event.written (.accepted bytesWritten)).Kept o) :
    bytesWritten ≤ queue.length ∧ Returns (o.step (.written (.accepted bytesWritten))) fun out =>
      Holds cap (queue.drop bytesWritten) out.1 ∧ out.2 = .pulled (queue.take bytesWritten) := by
  obtain ⟨held, waiting⟩ := holds
  obtain ⟨positive, offered⟩ := possible
  obtain ⟨start, another⟩ := kept
  obtain ⟨available, inside⟩ := waiting.requested_le
  have readable := held.readable
  have capacity := held.capacity
  have enough : bytesWritten ≤ queue.length := by omega
  have fetched := fetch_represents held bytesWritten (by omega) enough
  obtain ⟨⟨result, buffer⟩, skipped, remaining, moved⟩ := skipReadBytes_represents held start enough
    (by omega) (capacity ▸ another)
  refine ⟨enough, ?_⟩
  simp only [step, fetched, WriteCall.resume, skipped, ok_bind, pure_is_ok]
  cases control : o.call.control with
  | segments =>
    refine (returns_ok _ _).mpr ⟨⟨?_, (WriteCall.enterSegments_waiting _).1⟩, rfl⟩
    rw [(WriteCall.enterSegments_waiting _).2]
    exact remaining
  | rest =>
    -- fewer bytes are left, and the index has moved by no more than were taken
    have left := remaining.readable
    have capacityLeft := remaining.capacity
    rw [List.length_drop] at left
    simp only at left capacityLeft moved
    simp only [WriteCall.Waiting, control] at waiting
    have short : buffer.readableBytes ≤ buffer.singleCapacity - buffer.localReaderIndex := by omega
    refine (returns_ok _ _).mpr ⟨⟨?_, (WriteCall.enterRest_waiting short).1⟩, rfl⟩
    rw [(WriteCall.enterRest_waiting short).2]
    exact remaining
  | returned result =>
    simp only [WriteCall.requested, control] at offered
    omega

/-- One event does to the buffered bytes what the queue does for it. -/
theorem step_holds (holds : Holds cap queue o) {event : Event} (possible : event.Possible o)
    (kept : event.Kept o) :
    Returns (o.step event) fun out => Holds cap (Fifo.serve queue event.request).1 out.1 ∧
      out.2 = (Fifo.serve queue event.request).2 := by
  obtain ⟨held, waiting⟩ := holds
  cases event with
  | writeDirect buffer =>
    obtain ⟨⟨result, idle⟩, source, nonempty⟩ := possible
    have length := source.length_content
    have positive : 0 < buffer.readableBytes := length ▸ List.length_pos_iff.mpr nonempty
    obtain ⟨⟨writerBuffer, scratch, drained⟩, moved, appended, -⟩ :=
      writeBytesFrom_represents held o.scratch source.represents positive kept (Nat.le_of_eq length.symm)
    rw [List.take_of_length_le (Nat.le_of_eq length)] at appended
    simp only [step, moved, ok_bind, pure_is_ok, returns_ok]
    exact ⟨⟨appended, by simp only [WriteCall.Waiting, idle]⟩, rfl⟩
  | flush =>
    obtain ⟨stands, same⟩ := write_waiting o.call.closer o.call.buffer
    simp only [step, pure_is_ok, returns_ok, Event.request, Fifo.serve, List.append_nil, and_true]
    exact ⟨by rw [same]; exact held, stands⟩
  | written result =>
    cases result with
    | failed errno =>
      simp only [step, WriteCall.resume, Event.request, Fifo.serve, List.append_nil]
      split
      · exact (returns_ok _ _).mpr ⟨⟨held, trivial⟩, rfl⟩
      · exact (returns_ok _ _).mpr ⟨⟨held, trivial⟩, rfl⟩
    | accepted bytesWritten =>
      obtain ⟨enough, taken⟩ := accepted_holds ⟨held, waiting⟩ possible kept
      simp only [Event.request, Fifo.serve, enough, if_true]
      exact taken

/-- In every run of calls and answers that the code copes with, the bytes that
the system has taken, followed by the bytes still buffered, are the bytes given
to `WriteDirect`: none is skipped, repeated or moved. Every moment of a run is
the end of a shorter one. -/
theorem outgoing_stream_intact (heap : Nat → Block UInt8) (cap : Nat) (positive : 0 < cap)
    (scratch : Block UInt8) (events : List Event)
    (meets : Transition.Meets step (fun o event => event.Possible o ∧ event.Kept o)
      (new heap cap scratch) events) :
    ∃ final replies, Transition.run step (new heap cap scratch) events = .ok (final, replies) ∧
      replies.flatMap Fifo.Reply.pulls ++ final.call.buffer.content = events.flatMap Event.given := by
  obtain ⟨⟨final, replies⟩, ran, holds, same⟩ := Transition.run_refines
    (fun queue (event : Event) => Fifo.serve queue event.request) (fun o queue => Holds cap queue o)
    (fun _ _ _ holds admissible => step_holds holds admissible.1 admissible.2)
    (holds_new heap positive scratch) meets
  have conserved := Fifo.run_conserves [] (events.map Event.request)
  rw [Transition.runSpec_map] at conserved
  have given : (events.map Event.request).flatMap Fifo.Request.pushes = events.flatMap Event.given := by
    rw [List.flatMap_map]
    apply List.flatMap_congr
    intro event _
    rcases event with buffer | _ | _ | _
    · rfl
    · rfl
    · rfl
    · rfl
  refine ⟨final, replies, ran, ?_⟩
  simp only at same
  rw [same, holds.held.content, conserved, List.nil_append, given]

/-- A buffer that holds the bytes from 1 to `count`. -/
private def numbered (count : Nat) : ByteBufferImpl :=
  { ByteBufferImpl.new (fun _ index => .ofNat (index + 1)) 8 with
    localWriterIndex := count
    readableBytes := count }

private theorem numbered_wellFormed {count : Nat} (within : count ≤ 8) : (numbered count).WellFormed := by
  constructor <;> simp [numbered, ByteBufferImpl.new, within]

/-- A flush of a whole segment and a byte of the next one. -/
theorem outgoing_stream_intact_across_segments : ∃ final replies,
    Transition.run step (new (fun _ _ => 0) 4 (fun _ => 0))
      [.writeDirect (numbered 5), .flush, .written (.accepted 4), .written (.accepted 1)] =
        .ok (final, replies) ∧
      replies.flatMap Fifo.Reply.pulls ++ final.call.buffer.content = [1, 2, 3, 4, 5] := by
  refine outgoing_stream_intact (fun _ _ => 0) 4 (by decide) (fun _ => 0) _ ?_
  have source := numbered_wellFormed (by decide : 5 ≤ 8)
  refine Transition.meets_cons ⟨⟨⟨_, rfl⟩, source, by decide⟩, (by decide : 5 ≤ maxPacketSize)⟩ rfl ?_
  refine Transition.meets_cons ⟨⟨_, rfl⟩, trivial⟩ rfl ?_
  refine Transition.meets_cons ⟨⟨by decide, by decide⟩, rfl, .inr (by decide)⟩ rfl ?_
  exact Transition.meets_cons ⟨⟨by decide, by decide⟩, rfl, .inl (by decide)⟩ rfl trivial

/-- Two partial writes are enough to lose the place: the second byte is offered,
and stays buffered, in the third one's stead. -/
theorem outgoing_stream_drifts :
    ¬ ∀ (heap : Nat → Block UInt8) (cap : Nat) (scratch : Block UInt8) (events : List Event), 0 < cap →
      Transition.Meets step (fun o event => event.Possible o) (new heap cap scratch) events →
      ∃ final replies, Transition.run step (new heap cap scratch) events = .ok (final, replies) ∧
        replies.flatMap Fifo.Reply.pulls ++ final.call.buffer.content = events.flatMap Event.given := by
  intro intact
  obtain ⟨final, replies, ran, same⟩ := intact (fun _ _ => 0) 4 (fun _ => 0)
    [.writeDirect (numbered 3), .flush, .written (.accepted 1), .written (.accepted 1)] (by decide) (by
      have source := numbered_wellFormed (by decide : 3 ≤ 8)
      refine Transition.meets_cons ⟨⟨_, rfl⟩, source, by decide⟩ rfl ?_
      refine Transition.meets_cons ⟨_, rfl⟩ rfl ?_
      refine Transition.meets_cons ⟨by decide, by decide⟩ rfl ?_
      exact Transition.meets_cons ⟨by decide, by decide⟩ rfl trivial)
  have drifted : (Transition.run step (new (fun _ _ => 0) 4 (fun _ => 0))
      [.writeDirect (numbered 3), .flush, .written (.accepted 1), .written (.accepted 1)]).map
        (fun out => out.2.flatMap Fifo.Reply.pulls ++ out.1.call.buffer.content) = .ok [1, 2, 2] := rfl
  have given : [Event.writeDirect (numbered 3), .flush, .written (.accepted 1),
      .written (.accepted 1)].flatMap Event.given = [1, 2, 3] := rfl
  rw [ran] at drifted
  simp only [Except.map, same, given] at drifted
  exact absurd drifted (by decide)

end Outgoing

end ShipNet
