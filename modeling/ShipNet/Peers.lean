import ShipNet.FrameArrival
import ShipNet.OutgoingStream

/-! Two connections at the ends of a socket. The one writes frames, flushes them and is
answered by its system piece by piece; the other reads the bytes in whatever pieces they
arrive. Calls of both and answers of the system come in any order. -/
namespace ShipNet
open Fallible ByteBufferImpl FramedByteBytePipe UnixReadWriteCloser

/-- The sender, the bytes its system has taken and the receiver has not read, and the
receiver. -/
structure Peers (π δ γ : Type) where
  sender : Outgoing
  wire : List UInt8
  receiver : Connection π δ γ

namespace Peers

variable {π δ γ : Type}

inductive Event where
  /-- `WriteDirect` of a buffer that holds the frame. -/
  | send (frame : Framing.Frame) (buffer : ByteBufferImpl)
  | flush
  /-- The `write` that the sender waits for returns. -/
  | written (result : WriteResult)
  /-- So many bytes are read, and given to `HandleNewBytes`. -/
  | arrive (count : Nat)

/-- A step of the sender; what its system takes goes on the wire. -/
def sendStep (p : Peers π δ γ) (event : Outgoing.Event) : Exec (Peers π δ γ) := do
  let (sender, reply) ← p.sender.step event
  pure { p with sender := sender, wire := p.wire ++ reply.pulls }

def step (app : Application π δ γ) (p : Peers π δ γ) : Event → Exec (Peers π δ γ × Unit)
  | .send _ buffer => return (← p.sendStep (.writeDirect buffer), ())
  | .flush => return (← p.sendStep .flush, ())
  | .written result => return (← p.sendStep (.written result), ())
  | .arrive count => do
    let receiver ← Connection.handleNewBytes app p.receiver (p.wire.take count)
    pure ({ p with wire := p.wire.drop count, receiver := receiver }, ())

def Event.frames : Event → List Framing.Frame
  | send frame _ => [frame]
  | flush | written _ | arrive _ => []

/-- Frames have a body, of the size that the receiver allows; the system keeps to the
contract of `write`; and there are the bytes that are read. -/
def Event.Possible (maxReadSize : UInt32) (p : Peers π δ γ) : Event → Prop
  | send frame buffer => (Outgoing.Event.writeDirect buffer).Possible p.sender ∧ buffer.content = frame.bytes ∧
    Allowed maxReadSize frame ∧ frame.body ≠ []
  | flush => Outgoing.Event.flush.Possible p.sender
  | written result => (Outgoing.Event.written result).Possible p.sender
  | arrive count => 1 ≤ count ∧ count ≤ p.wire.length

/-- What the code of either end copes with. -/
def Event.Kept (p : Peers π δ γ) : Event → Prop
  | send _ buffer => (Outgoing.Event.writeDirect buffer).Kept p.sender
  | flush => Outgoing.Event.flush.Kept p.sender
  | written result => (Outgoing.Event.written result).Kept p.sender
  | arrive count => p.receiver.Ripe (p.wire.take count)

variable {app : Application π δ γ} {p : Peers π δ γ} {sendCap readCap : Nat} {maxReadSize : UInt32}
  {main : PacketHandler} {further : List PacketHandler} {sent awaited : List Framing.Frame}

/-- Of the frames that were sent the first ones have been handed over, and the bytes of the
others are in the buffer of the receiver, on the wire and in the buffer of the sender. -/
structure Carries (sendCap readCap : Nat) (maxReadSize : UInt32) (main : PacketHandler) (further : List PacketHandler)
    (sent awaited : List Framing.Frame) (p : Peers π δ γ) : Prop where
  sender : Outgoing.Holds sendCap p.sender.call.buffer.content p.sender
  awaits : p.receiver.Awaits readCap maxReadSize main further awaited (p.wire ++ p.sender.call.buffer.content)
  deliverable : Connection.Deliverable maxReadSize awaited
  order : ∃ handed, sent = handed ++ awaited ∧ p.receiver.handed = handed.map Framing.Frame.body

/-- Another frame behind all the others. -/
theorem awaits_more {c : Connection π δ γ} {coming : List UInt8}
    (awaits : c.Awaits readCap maxReadSize main further awaited coming) (frame : Framing.Frame) :
    c.Awaits readCap maxReadSize main further (awaited ++ [frame]) (coming ++ frame.bytes) := by
  have behind (frames : List Framing.Frame) :
      Framing.stream (frames ++ [frame]) = Framing.stream frames ++ frame.bytes := by
    simp [Framing.stream]
  cases awaits with
  | between standing joined =>
    refine .between standing ?_
    rw [behind, ← joined, List.append_assoc]
  | within standing short joined =>
    rw [List.cons_append]
    refine .within standing short ?_
    rw [behind, ← List.append_assoc, joined, List.append_assoc]

/-- Where no bytes are on their way none is awaited. -/
theorem awaits_nothing {c : Connection π δ γ} (awaits : c.Awaits readCap maxReadSize main further awaited [])
    (deliverable : Connection.Deliverable maxReadSize awaited) (empty : c.readerBuffer.content = []) :
    awaited = [] := by
  cases awaits with
  | between standing joined =>
    rw [standing.held.content] at empty
    rw [empty, List.nil_append] at joined
    cases awaited with
    | nil => rfl
    | cons frame later =>
      have none : frame.header = [] := by
        have parts := (List.append_eq_nil_iff.mp (joined.symm.trans rfl : Framing.stream (frame :: later) = [])).1
        exact (List.append_eq_nil_iff.mp parts).1
      exact absurd none frame.terminated.ne_nil
  | @within frame later bytes coming standing short joined =>
    rw [standing.held.content] at empty
    rw [empty, List.nil_append] at joined
    have none := (List.append_eq_nil_iff.mp joined.symm).1
    exact absurd none (deliverable frame List.mem_cons_self).2

/-! ### Steps -/

/-- A step of the sender puts on the wire what it takes from the front of its buffer. -/
private theorem sendStep_holds {queue : List UInt8} (holds : Outgoing.Holds sendCap queue p.sender)
    {event : Outgoing.Event} (possible : event.Possible p.sender) (kept : event.Kept p.sender) :
    Returns (p.sendStep event) fun next => next.receiver = p.receiver ∧
      Outgoing.Holds sendCap next.sender.call.buffer.content next.sender ∧
      next.wire ++ next.sender.call.buffer.content = p.wire ++ (queue ++ event.request.pushes) := by
  refine (Outgoing.step_holds holds possible kept).bind ?_
  rintro ⟨sender, reply⟩ ⟨held, same⟩
  have content := held.held.content
  refine (returns_ok _ _).mpr ⟨rfl, ?_, ?_⟩
  · simp only at held content ⊢
    rwa [content]
  · simp only at same content ⊢
    rw [content, same, List.append_assoc, Fifo.serve_conserves]

/-- One event keeps all frames in their place. -/
theorem step_carries (consumes : Connection.ConsumesFrames app main further)
    (carries : Carries sendCap readCap maxReadSize main further sent awaited p) {event : Event}
    (possible : event.Possible maxReadSize p) (kept : event.Kept p) :
    Returns (p.step app event) fun out =>
      ∃ awaited, Carries sendCap readCap maxReadSize main further (sent ++ event.frames) awaited out.1 := by
  obtain ⟨sender, awaits, deliverable, handed, split, order⟩ := carries
  cases event with
  | send frame buffer =>
    obtain ⟨ready, holds, allowed, nonempty⟩ := possible
    refine (sendStep_holds sender ready kept).bind ?_
    rintro next ⟨same, holds', conserved⟩
    have more := awaits_more awaits frame
    rw [List.append_assoc, ← holds] at more
    simp only [Outgoing.Event.request, Fifo.Request.pushes] at conserved
    refine (returns_ok _ _).mpr ⟨awaited ++ [frame], holds', ?_, ?_, handed, ?_, ?_⟩
    · rw [same, conserved]
      exact more
    · intro other member
      rcases List.mem_append.mp member with before | last
      · exact deliverable other before
      · rw [List.mem_singleton.mp last]
        exact ⟨allowed, nonempty⟩
    · rw [split, List.append_assoc]
      rfl
    · rw [same, order]
  | flush =>
    have ready : Outgoing.Event.flush.Possible p.sender := possible
    refine (sendStep_holds sender ready kept).bind ?_
    rintro next ⟨same, holds', conserved⟩
    rw [Outgoing.Event.request, Fifo.Request.pushes, List.append_nil] at conserved
    refine (returns_ok _ _).mpr ⟨awaited, holds', ?_, deliverable, handed, ?_, ?_⟩
    · rw [same, conserved]
      exact awaits
    · rw [split, Event.frames, List.append_nil]
    · rw [same, order]
  | written result =>
    have ready : (Outgoing.Event.written result).Possible p.sender := possible
    refine (sendStep_holds sender ready kept).bind ?_
    rintro next ⟨same, holds', conserved⟩
    have nothing : (Outgoing.Event.written result).request.pushes = [] := by
      cases result with
      | accepted bytesWritten => rfl
      | failed errno => rfl
    rw [nothing, List.append_nil] at conserved
    refine (returns_ok _ _).mpr ⟨awaited, holds', ?_, deliverable, handed, ?_, ?_⟩
    · rw [same, conserved]
      exact awaits
    · rw [split, Event.frames, List.append_nil]
    · rw [same, order]
  | arrive count =>
    have cut := List.take_append_drop count p.wire
    rw [← cut, List.append_assoc] at awaits
    refine (awaits.handleNewBytes consumes deliverable kept).bind ?_
    rintro receiver advance
    rw [Event.frames, List.append_nil]
    cases advance with
    | waited short behind same =>
      exact (returns_ok _ _).mpr ⟨awaited, sender, behind, deliverable, handed, split, same.trans order⟩
    | handed frame later first there behind same =>
      subst first
      refine (returns_ok _ _).mpr ⟨later, sender, behind, ?_, handed ++ [frame], ?_, ?_⟩
      · exact fun other member => deliverable other (List.mem_cons_of_mem _ member)
      · rw [split, List.append_assoc]
        rfl
      · rw [same, order, List.map_append]
        rfl

/-! ### Runs -/

/-- Both ends as they are made. -/
def new (sendHeap readHeap : Nat → Block UInt8) (sendCap readCap : Nat) (scratch : Block UInt8) (maxReadSize : UInt32)
    (decoder : δ) (main : PacketHandler) (further : List PacketHandler) (user : γ) : Peers π δ γ where
  sender := .new sendHeap sendCap scratch
  wire := []
  receiver := .new readHeap readCap [] { maxReadSize := maxReadSize, decoder := decoder } main further user

/-- In every run of calls and answers that both ends cope with, the frames that were handed
over are the first ones of those that were sent, once each and in order; the bytes of the
others are on their way, and where none is every frame has been handed over. -/
theorem frames_arrive_in_order (consumes : Connection.ConsumesFrames app main further)
    (sendHeap readHeap : Nat → Block UInt8) (sendPositive : 0 < sendCap) (readPositive : 0 < readCap)
    (scratch : Block UInt8) (maxReadSize : UInt32) (decoder : δ) (user : γ) (events : List Event)
    (meets : Transition.Meets (step app) (fun p event => event.Possible maxReadSize p ∧ event.Kept p)
      (new sendHeap readHeap sendCap readCap scratch maxReadSize decoder main further user) events) :
    Returns (Transition.run (step app)
        (new sendHeap readHeap sendCap readCap scratch maxReadSize decoder main further user) events) fun out =>
      ∃ awaited, Carries sendCap readCap maxReadSize main further (events.flatMap Event.frames) awaited out.1 ∧
        (out.1.sender.call.buffer.content = [] → out.1.wire = [] → out.1.receiver.readerBuffer.content = [] →
          out.1.receiver.handed = (events.flatMap Event.frames).map Framing.Frame.body) := by
  let Carried (p : Peers π δ γ) (sent : List Framing.Frame) : Prop :=
    ∃ awaited, Carries sendCap readCap maxReadSize main further sent awaited p
  have start : Carried (new sendHeap readHeap sendCap readCap scratch maxReadSize decoder main further user) [] := by
    have holds := Outgoing.holds_new sendHeap sendPositive scratch
    have empty : (Outgoing.new sendHeap sendCap scratch).call.buffer.content = [] := holds.held.content
    refine ⟨[], by rwa [← empty] at holds, .between ⟨rfl, rfl, rfl, rfl, rfl, represents_new readHeap readPositive⟩ ?_,
      ?_, [], rfl, rfl⟩
    · exact empty
    · exact fun frame member => absurd member List.not_mem_nil
  have followed := Transition.run_follows (fun sent (event : Event) => sent ++ event.frames) Carried [] (by
    rintro p sent event ⟨awaited, carries⟩ ⟨possible, kept⟩
    exact step_carries consumes carries possible kept) start meets
  refine followed.mono ?_
  rintro ⟨final, outputs⟩ ⟨awaited, carries⟩
  have sent : events.foldl (fun sent event => sent ++ event.frames) [] = events.flatMap Event.frames := by
    rw [List.foldl_append_eq_append, List.nil_append, List.flatMap_def]
  rw [sent] at carries
  refine ⟨awaited, carries, ?_⟩
  intro sender wire reader
  have awaits := carries.awaits
  simp only at sender wire reader
  rw [sender, wire] at awaits
  obtain ⟨handed, split, order⟩ := carries.order
  rw [awaits_nothing awaits carries.deliverable reader, List.append_nil] at split
  rw [order, split]

/-- A buffer that holds a frame of three bytes. -/
private def threeBytesBuffer : ByteBufferImpl :=
  { ByteBufferImpl.new (fun _ index => .ofNat (index + 3)) 8 with
    localWriterIndex := 4
    readableBytes := 4 }

private theorem threeBytesBuffer_wellFormed : threeBytesBuffer.WellFormed := by
  constructor <;> simp [threeBytesBuffer, ByteBufferImpl.new]

/-- The length arrives, and then the rest of the frame. -/
theorem frame_arrives_in_pieces :
    Returns (Transition.run (step Connection.skimming)
        (new (fun _ _ => 0) (fun _ _ => 0) 8 8 (fun _ => 0) 10 () ⟨0⟩ [] ())
        [.send Connection.threeBytes threeBytesBuffer, .flush, .written (.accepted 4), .arrive 1, .arrive 3]) fun out =>
      ∃ awaited, Carries 8 8 10 ⟨0⟩ [] [Connection.threeBytes] awaited out.1 ∧
        (out.1.sender.call.buffer.content = [] → out.1.wire = [] → out.1.receiver.readerBuffer.content = [] →
          out.1.receiver.handed = [[4, 5, 6]]) := by
  refine frames_arrive_in_order (Connection.skimming_consumes ⟨0⟩) (fun _ _ => 0) (fun _ _ => 0)
    (by decide : 0 < 8) (by decide : 0 < 8) (fun _ => 0) 10 () ()
    [.send Connection.threeBytes threeBytesBuffer, .flush, .written (.accepted 4), .arrive 1, .arrive 3] ?_
  have allowed : Allowed 10 Connection.threeBytes := by simp [Allowed, Connection.threeBytes]
  refine Transition.meets_cons ⟨⟨⟨⟨_, rfl⟩, threeBytesBuffer_wellFormed, by decide⟩, rfl, allowed, by decide⟩,
    (by decide : 4 ≤ maxPacketSize)⟩ rfl ?_
  refine Transition.meets_cons ⟨⟨_, rfl⟩, trivial⟩ rfl ?_
  refine Transition.meets_cons ⟨⟨by decide, by decide⟩, rfl, .inl (by decide)⟩ rfl ?_
  have length : Base128.decode 5 [3] = .complete 3 [] := rfl
  refine Transition.meets_cons ⟨⟨by decide, by decide⟩, ⟨fun _ => .inr fun cut => ?_, ?_⟩⟩ rfl ?_
  · cases length.symm.trans cut
  · exact Connection.threeBytes_apart
  · refine Transition.meets_cons ⟨⟨by decide, by decide⟩, ⟨fun fresh => absurd fresh (by decide), ?_⟩⟩ rfl trivial
    rintro ⟨fresh, -⟩
    exact absurd fresh (by decide)

end Peers

end ShipNet
