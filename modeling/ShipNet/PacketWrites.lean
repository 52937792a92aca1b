import ShipNet.BufferCalls
import ShipNet.PipedConnection

/-! Calls of `Write` on the connections of one thread, over any pipes. A call puts the
whole content of the front buffer into `writerBuffer`, or nothing, and no packet meets
what another one left in `connectionWriteBuffer`. -/
namespace ShipNet
open Fallible ByteBufferImpl

variable {κ π ρ ψ γ : Type}

/-! ### What pipes may do -/

structure DuplexPipe.WellFormed (pipe : DuplexPipe π) : Prop where
  readerBuffer : pipe.readerBuffer.WellFormed
  writerBuffer : pipe.writerBuffer.WellFormed

/-- The pipes handle buffers by calls: a byte pipe reads its input, as far as it likes,
and does anything to its own buffers; a packet pipe writes fewer bytes than
`connectionWriteBuffer` has room for. The answers are any. -/
structure Protocol.WritesByCalls (protocol : Protocol π ρ ψ γ) : Prop where
  writePipe : ∀ pipe input, pipe.WellFormed → input.WellFormed →
    Returns (protocol.writePipe pipe input) fun out => Reads input out.2.2 ∧
      Uses pipe.readerBuffer out.2.1.readerBuffer ∧ Uses pipe.writerBuffer out.2.1.writerBuffer
  writePacket : ∀ pipe buffer packet, Represents maxPacketSize [] buffer →
    Returns (protocol.writePacket pipe buffer packet) fun out =>
      ∃ bytes, bytes.length < maxPacketSize ∧ Writes bytes buffer out.2.2

namespace PipedConnection

structure WellFormed (c : PipedConnection π ρ γ) : Prop where
  pipeline : ∀ pipe ∈ c.pipeline, pipe.WellFormed
  writerBuffer : c.writerBuffer.WellFormed

/-! ### What the stages of a call are asked and answer -/

/-- A call of `Write` of a byte pipe: the pipe and its argument before it, the answer, and
both behind it. -/
structure PipeCall (π : Type) where
  pipe : DuplexPipe π
  buffer : ByteBufferImpl
  pipeShouldWrite : Errorable Nat
  pipeAfter : DuplexPipe π
  bufferAfter : ByteBufferImpl

namespace PipeCall

/-- It is what the pipe does. -/
def Real (protocol : Protocol π ρ ψ γ) (call : PipeCall π) : Prop :=
  protocol.writePipe call.pipe call.buffer = .ok (call.pipeShouldWrite, call.pipeAfter, call.bufferAfter)

/-- It has something to pass on. -/
def Passed (call : PipeCall π) : Prop :=
  call.pipeShouldWrite.isSuccess = true ∧ call.pipeShouldWrite.value ≠ 0

def Failed (call : PipeCall π) : Prop :=
  call.pipeShouldWrite.isSuccess = false

/-- The pipe is left as it was behind the call, but for what the next stage has read of its
writer buffer. -/
structure Leaves (call : PipeCall π) (pipe : DuplexPipe π) : Prop where
  same : { call.pipeAfter with writerBuffer := pipe.writerBuffer } = pipe
  read : Reads call.pipeAfter.writerBuffer pipe.writerBuffer

end PipeCall

/-- The buffer that the last one of the calls has written, which goes to the next stage. -/
def lastBuffer (buffer : ByteBufferImpl) : List (PipeCall π) → ByteBufferImpl
  | [] => buffer
  | call :: later => lastBuffer call.pipeAfter.writerBuffer later

/-- The calls of the pipes, one after another: the first one is made on `buffer`, each other
one on the writer buffer of the pipe of the call before it, and none is made behind one that
fails or has nothing to pass on. -/
structure Linked (protocol : Protocol π ρ ψ γ) (buffer : ByteBufferImpl) (pipes : List (DuplexPipe π))
    (calls : List (PipeCall π)) : Prop where
  real : ∀ call ∈ calls, call.Real protocol
  order : calls.map PipeCall.pipe = pipes.take calls.length
  linked : calls.map PipeCall.buffer =
    (buffer :: calls.map fun call => call.pipeAfter.writerBuffer).take calls.length
  stops : ∀ call ∈ calls.dropLast, call.Passed
  runs : (∀ call ∈ calls, call.Passed) → calls.length = pipes.length

/-- What the packet pipe answers and leaves in `connectionWriteBuffer`, and the calls of the
byte pipes. -/
structure WriteTrace (π ρ : Type) where
  shouldWrite : Errorable Bool
  bytePacketPipe : ρ
  packetBuffer : ByteBufferImpl
  calls : List (PipeCall π)

namespace WriteTrace

/-- The packet pipe answers `success(true)`. -/
def Wanted (trace : WriteTrace π ρ) : Prop :=
  trace.shouldWrite.isSuccess = true ∧ trace.shouldWrite.value = true

/-- All `count` byte pipes are run, and all stages have something to pass on. -/
structure Passed (trace : WriteTrace π ρ) (count : Nat) : Prop where
  wanted : trace.Wanted
  everyPipe : trace.calls.length = count
  bytePipes : ∀ call ∈ trace.calls, call.Passed

def Failed (trace : WriteTrace π ρ) : Prop :=
  trace.shouldWrite.isSuccess = false ∨ ∃ call ∈ trace.calls, call.Failed

/-- The writer buffer of the front pipe, as its `Write` has left it; `connectionWriteBuffer`
where there is no pipe. -/
def frontBuffer (trace : WriteTrace π ρ) : ByteBufferImpl := lastBuffer trace.packetBuffer trace.calls

/-- It is what the stages do in a call of `Write`, from the back of the pipeline to its front. -/
structure Of (protocol : Protocol π ρ ψ γ) (before : PipedConnection π ρ γ) (connectionWriteBuffer : ByteBufferImpl)
    (packet : ψ) (trace : WriteTrace π ρ) : Prop where
  packetPipe : protocol.writePacket before.bytePacketPipe connectionWriteBuffer.resetReaderIndex.resetWriterIndex
    packet = .ok (trace.shouldWrite, trace.bytePacketPipe, trace.packetBuffer)
  bytePipes : trace.Wanted → Linked protocol trace.packetBuffer before.pipeline.reverse trace.calls
  idle : ¬ trace.Wanted → trace.calls = []

end WriteTrace

/-- What a call of `Write` does to its connection, by what the stages did in it. The first
one of them is offered the bytes that the packet pipe wrote for this packet, and no others. -/
structure AllOrNothing (protocol : Protocol π ρ ψ γ) (before : PipedConnection π ρ γ)
    (connectionWriteBuffer : ByteBufferImpl) (packet : ψ) (after : PipedConnection π ρ γ)
    (trace : WriteTrace π ρ) : Prop where
  of : trace.Of protocol before connectionWriteBuffer packet
  written : Writes trace.packetBuffer.content connectionWriteBuffer.resetReaderIndex.resetWriterIndex
    trace.packetBuffer
  appended : trace.Passed before.pipeline.length →
    after.writerBuffer.content = before.writerBuffer.content ++ trace.frontBuffer.content
  untouched : ¬ trace.Passed before.pipeline.length → after.writerBuffer = before.writerBuffer
  closed : after.readWriteCloser.closed = true ↔ before.readWriteCloser.closed = true ∨ trace.Failed
  bytePacketPipe : after.bytePacketPipe = trace.bytePacketPipe
  called : List.Forall₂ PipeCall.Leaves trace.calls (after.pipeline.reverse.take trace.calls.length)
  others : after.pipeline.reverse.drop trace.calls.length = before.pipeline.reverse.drop trace.calls.length

/-! ### The loop over the pipeline -/

section Traversal

variable {protocol : Protocol π ρ ψ γ} {buffer : ByteBufferImpl} {pipes : List (DuplexPipe π)}
  {call : PipeCall π} {calls : List (PipeCall π)}

private theorem Linked.nil : Linked protocol buffer [] [] where
  real := by simp
  order := rfl
  linked := rfl
  stops := by simp
  runs := fun _ => rfl

/-- The loop ends at a pipe that does not pass its input on. -/
private theorem Linked.stop (real : call.Real protocol) (stopped : ¬ call.Passed) :
    Linked protocol call.buffer (call.pipe :: pipes) [call] where
  real := by simpa using real
  order := rfl
  linked := rfl
  stops := by simp
  runs := fun passed => absurd (passed call List.mem_cons_self) stopped

private theorem Linked.cons (later : Linked protocol call.pipeAfter.writerBuffer pipes calls)
    (real : call.Real protocol) (passed : call.Passed) :
    Linked protocol call.buffer (call.pipe :: pipes) (call :: calls) where
  real := List.forall_mem_cons.mpr ⟨real, later.real⟩
  order := by rw [List.map_cons, later.order, List.length_cons, List.take_succ_cons]
  linked := by rw [List.map_cons, later.linked, List.length_cons, List.take_succ_cons, List.map_cons]
  stops := by
    cases calls with
    | nil => simp
    | cons next rest =>
      intro stage member
      rcases List.mem_cons.mp member with rfl | further
      · exact passed
      · exact later.stops stage further
  runs := fun all => by
    rw [List.length_cons, later.runs fun stage member => all stage (List.mem_cons_of_mem _ member), List.length_cons]

/-- The loop ran these calls, and left the pipes as they say. -/
private structure Traversed (protocol : Protocol π ρ ψ γ) (buffer : ByteBufferImpl) (pipes : List (DuplexPipe π))
    (stages : Stages π) (calls : List (PipeCall π)) : Prop where
  chain : Linked protocol buffer pipes calls
  input : Reads buffer stages.input
  wellFormed : ∀ pipe ∈ stages.pipes, pipe.WellFormed
  passed : stages.outcome = .passed ↔ ∀ call ∈ calls, call.Passed
  failed : stages.outcome = .failed ↔ ∃ call ∈ calls, call.Failed
  called : List.Forall₂ PipeCall.Leaves calls (stages.pipes.take calls.length)
  others : stages.pipes.drop calls.length = pipes.drop calls.length
  last : stages.outcome = .passed →
    (stages.pipes.getLast?.map DuplexPipe.writerBuffer).getD stages.input = lastBuffer buffer calls

private theorem leaves_refl (call : PipeCall π) : call.Leaves call.pipeAfter := ⟨rfl, .refl _⟩

/-- A pipe that does not pass its input on is the last one that the loop calls. -/
private theorem Traversed.stop (real : call.Real protocol) (stopped : ¬ call.Passed) {outcome : Outcome}
    (read : Reads call.buffer call.bufferAfter) (wellFormed : ∀ pipe ∈ call.pipeAfter :: pipes, pipe.WellFormed)
    (held : outcome ≠ .passed) (failed : outcome = .failed ↔ call.Failed) :
    Traversed protocol call.buffer (call.pipe :: pipes)
      { input := call.bufferAfter, pipes := call.pipeAfter :: pipes, outcome := outcome } [call] where
  chain := .stop real stopped
  input := read
  wellFormed := wellFormed
  passed := by simp [held, stopped]
  failed := by simpa using failed
  called := by simpa using leaves_refl call
  others := rfl
  last := fun passed => absurd passed held

private theorem Traversed.cons {stages : Stages π}
    (later : Traversed protocol call.pipeAfter.writerBuffer pipes stages calls) (real : call.Real protocol)
    (passed : call.Passed) (read : Reads call.buffer call.bufferAfter) (wellFormed : call.pipeAfter.WellFormed) :
    Traversed protocol call.buffer (call.pipe :: pipes) {
      input := call.bufferAfter
      pipes := { call.pipeAfter with writerBuffer := stages.input } :: stages.pipes
      outcome := stages.outcome } (call :: calls) where
  chain := later.chain.cons real passed
  input := read
  wellFormed := by
    refine List.forall_mem_cons.mpr ⟨⟨wellFormed.readerBuffer, ?_⟩, later.wellFormed⟩
    exact later.input.uses.wellFormed wellFormed.writerBuffer
  passed := by simp [passed, later.passed]
  failed := by
    have sound : ¬ call.Failed := fun failed => by cases failed.symm.trans passed.1
    simp [sound, later.failed]
  called := .cons ⟨rfl, later.input⟩ later.called
  others := later.others
  last := by
    intro all
    rw [lastBuffer, ← later.last all]
    cases stages.pipes with
    | nil => rfl
    | cons next behind => simp only [List.getLast?_cons, Option.map_some, Option.getD_some]

private theorem writeStages_traverses (contract : protocol.WritesByCalls) (input : buffer.WellFormed)
    (wellFormed : ∀ pipe ∈ pipes, pipe.WellFormed) :
    Returns (writeStages protocol buffer pipes) fun stages =>
      ∃ calls, Traversed protocol buffer pipes stages calls := by
  induction pipes generalizing buffer with
  | nil => exact (returns_ok _ _).mpr ⟨[], .nil, .refl buffer, by simp, by simp, by simp, .nil, rfl, fun _ => rfl⟩
  | cons pipe earlier ih =>
    obtain ⟨first, others⟩ := List.forall_mem_cons.mp wellFormed
    obtain ⟨⟨result, after, rest⟩, wrote, read, usedReader, usedWriter⟩ := contract.writePipe pipe buffer first input
    let call : PipeCall π := ⟨pipe, buffer, result, after, rest⟩
    have real : call.Real protocol := wrote
    have kept : after.WellFormed :=
      ⟨usedReader.wellFormed first.readerBuffer, usedWriter.wellFormed first.writerBuffer⟩
    have keptAll : ∀ pipe ∈ after :: earlier, pipe.WellFormed := List.forall_mem_cons.mpr ⟨kept, others⟩
    rw [writeStages, wrote, ok_bind]
    cases success : result.isSuccess with
    | false =>
      have stopped : ¬ call.Passed := fun passed => by cases success.symm.trans passed.1
      simp only [success, Bool.not_false, if_true]
      refine (returns_ok _ _).mpr ⟨[call], .stop real stopped read keptAll (by simp) ?_⟩
      exact iff_of_true rfl success
    | true =>
      simp only [success, Bool.not_true, Bool.false_eq_true, if_false]
      split
      · rename_i nothing
        have sound : ¬ call.Failed := fun failed => by cases success.symm.trans failed
        refine (returns_ok _ _).mpr ⟨[call], .stop real (fun passed => passed.2 nothing) read keptAll (by simp) ?_⟩
        exact iff_of_false (by simp) sound
      · rename_i something
        refine (ih kept.writerBuffer others).bind ?_
        rintro stages ⟨calls, traversed⟩
        exact (returns_ok _ _).mpr ⟨call :: calls, traversed.cons real ⟨success, something⟩ read kept⟩

end Traversal

/-! ### `Write` in front of `WriteDirect` -/

private structure WellPrepared (protocol : Protocol π ρ ψ γ) (before : PipedConnection π ρ γ)
    (connectionWriteBuffer : ByteBufferImpl) (packet : ψ) (prepared : Prepared π ρ) (trace : WriteTrace π ρ) :
    Prop where
  oneSegment : prepared.connectionWriteBuffer.OneSegment
  capacity : prepared.connectionWriteBuffer.singleCapacity = maxPacketSize
  pipeline : ∀ pipe ∈ prepared.pipeline, pipe.WellFormed
  of : trace.Of protocol before connectionWriteBuffer packet
  written : Writes trace.packetBuffer.content connectionWriteBuffer.resetReaderIndex.resetWriterIndex
    trace.packetBuffer
  passed : prepared.outcome = .passed ↔ trace.Passed before.pipeline.length
  failed : prepared.outcome = .failed ↔ trace.Failed
  bytePacketPipe : prepared.bytePacketPipe = trace.bytePacketPipe
  called : List.Forall₂ PipeCall.Leaves trace.calls (prepared.pipeline.reverse.take trace.calls.length)
  others : prepared.pipeline.reverse.drop trace.calls.length = before.pipeline.reverse.drop trace.calls.length
  front : prepared.outcome = .passed → prepared.frontBuffer = trace.frontBuffer

section Preparation

variable {protocol : Protocol π ρ ψ γ} {before : PipedConnection π ρ γ} {connectionWriteBuffer buffer : ByteBufferImpl}
  {packet : ψ} {shouldWrite : Errorable Bool} {bytePacketPipe : ρ}

/-- A packet that is not wanted meets no byte pipe. -/
private theorem WellPrepared.of_unwanted (wellFormed : before.WellFormed) (oneSegment : buffer.OneSegment)
    (capacity : buffer.singleCapacity = maxPacketSize)
    (wrote : protocol.writePacket before.bytePacketPipe connectionWriteBuffer.resetReaderIndex.resetWriterIndex packet =
      .ok (shouldWrite, bytePacketPipe, buffer))
    (writes : Writes buffer.content connectionWriteBuffer.resetReaderIndex.resetWriterIndex buffer)
    (unwanted : ¬ (shouldWrite.isSuccess = true ∧ shouldWrite.value = true)) {outcome : Outcome}
    (held : outcome ≠ .passed) (failed : outcome = .failed ↔ shouldWrite.isSuccess = false) :
    WellPrepared protocol before connectionWriteBuffer packet {
      connectionWriteBuffer := buffer
      bytePacketPipe := bytePacketPipe
      pipeline := before.pipeline
      outcome := outcome } ⟨shouldWrite, bytePacketPipe, buffer, []⟩ where
  oneSegment := oneSegment
  capacity := capacity
  pipeline := wellFormed.pipeline
  of := ⟨wrote, fun wanted => absurd wanted unwanted, fun _ => rfl⟩
  written := writes
  passed := iff_of_false held fun passed => unwanted passed.wanted
  failed := by simpa [WriteTrace.Failed] using failed
  bytePacketPipe := rfl
  called := .nil
  others := rfl
  front := fun passed => absurd passed held

private theorem frontBuffer_eq (prepared : Prepared π ρ) : prepared.frontBuffer =
    (prepared.pipeline.reverse.getLast?.map DuplexPipe.writerBuffer).getD prepared.connectionWriteBuffer := by
  unfold Prepared.frontBuffer
  cases prepared.pipeline with
  | nil => rfl
  | cons pipe later => simp

/-- Where the packet is wanted, the loop over the pipeline decides. -/
private theorem WellPrepared.of_traversed {stages : Stages π} {calls : List (PipeCall π)}
    (traversed : Traversed protocol buffer before.pipeline.reverse stages calls) (oneSegment : buffer.OneSegment)
    (capacity : buffer.singleCapacity = maxPacketSize)
    (wrote : protocol.writePacket before.bytePacketPipe connectionWriteBuffer.resetReaderIndex.resetWriterIndex packet =
      .ok (shouldWrite, bytePacketPipe, buffer))
    (writes : Writes buffer.content connectionWriteBuffer.resetReaderIndex.resetWriterIndex buffer)
    (success : shouldWrite.isSuccess = true) (value : shouldWrite.value = true) :
    WellPrepared protocol before connectionWriteBuffer packet {
      connectionWriteBuffer := stages.input
      bytePacketPipe := bytePacketPipe
      pipeline := stages.pipes.reverse
      outcome := stages.outcome } ⟨shouldWrite, bytePacketPipe, buffer, calls⟩ := by
  obtain ⟨kept, sameCapacity⟩ := traversed.input.oneSegment oneSegment
  have runs := traversed.chain.runs
  rw [List.length_reverse] at runs
  refine ⟨kept, sameCapacity.trans capacity, ?_, ⟨wrote, fun _ => traversed.chain, ?_⟩, writes, ?_, ?_, rfl, ?_, ?_, ?_⟩
  · intro pipe member
    exact traversed.wellFormed pipe (List.mem_reverse.mp member)
  · exact fun unwanted => absurd ⟨success, value⟩ unwanted
  · rw [traversed.passed]
    exact ⟨fun all => ⟨⟨success, value⟩, runs all, all⟩, fun passed => passed.bytePipes⟩
  · simp [traversed.failed, WriteTrace.Failed, success]
  · simpa only [List.reverse_reverse] using traversed.called
  · simpa only [List.reverse_reverse] using traversed.others
  · intro passed
    rw [frontBuffer_eq, List.reverse_reverse]
    exact traversed.last passed

private theorem prepare_returns (contract : protocol.WritesByCalls) (wellFormed : before.WellFormed)
    (ready : connectionWriteBuffer.Resettable) (packet : ψ) :
    Returns (prepare protocol before connectionWriteBuffer packet) fun prepared =>
      ∃ trace, WellPrepared protocol before connectionWriteBuffer packet prepared trace := by
  obtain ⟨⟨shouldWrite, bytePacketPipe, buffer⟩, wrote, bytes, few, writes⟩ :=
    contract.writePacket before.bytePacketPipe _ packet ready.reset
  simp only at writes
  obtain ⟨represents, oneSegment⟩ := writes.after_reset ready few
  have capacity : buffer.singleCapacity = maxPacketSize := represents.capacity
  rw [← represents.content] at writes
  unfold prepare
  simp only [wrote, ok_bind]
  cases success : shouldWrite.isSuccess with
  | false =>
    simp only [Bool.not_false, if_true, pure_is_ok, returns_ok]
    refine ⟨_, .of_unwanted wellFormed oneSegment capacity wrote writes ?_ (by simp) (by simpa using success)⟩
    simp [success]
  | true =>
    simp only [Bool.not_true, Bool.false_eq_true, if_false]
    cases value : shouldWrite.value with
    | false =>
      simp only [Bool.false_eq_true, if_false, pure_is_ok, returns_ok]
      refine ⟨_, .of_unwanted wellFormed oneSegment capacity wrote writes ?_ (by simp) (by simp [success])⟩
      simp [value]
    | true =>
      simp only [if_true]
      have reversed : ∀ pipe ∈ before.pipeline.reverse, pipe.WellFormed := fun pipe member =>
        wellFormed.pipeline pipe (List.mem_reverse.mp member)
      refine (writeStages_traverses contract oneSegment.wellFormed reversed).bind ?_
      rintro stages ⟨calls, traversed⟩
      exact (returns_ok _ _).mpr ⟨_, .of_traversed traversed oneSegment capacity wrote writes success value⟩

end Preparation

/-! ### `WriteDirect` -/

section Appending

variable {protocol : Protocol π ρ ψ γ} {before : PipedConnection π ρ γ} {connectionWriteBuffer buffer : ByteBufferImpl}
  {packet : ψ} {prepared : Prepared π ρ} {trace : WriteTrace π ρ}

private theorem WellPrepared.frontBuffer
    (well : WellPrepared protocol before connectionWriteBuffer packet prepared trace) :
    prepared.frontBuffer.WellFormed := by
  have pipeline := well.pipeline
  unfold Prepared.frontBuffer
  split
  · exact well.oneSegment.wellFormed
  · rename_i pipe later shape
    rw [shape] at pipeline
    exact (pipeline pipe List.mem_cons_self).writerBuffer

/-- Reading the front buffer leaves the indices of `connectionWriteBuffer` ready to be reset. -/
theorem Prepared.setFrontBuffer_resettable (oneSegment : prepared.connectionWriteBuffer.OneSegment)
    (capacity : prepared.connectionWriteBuffer.singleCapacity = maxPacketSize)
    (read : Reads prepared.frontBuffer buffer) : (prepared.setFrontBuffer buffer).connectionWriteBuffer.Resettable := by
  cases shape : prepared.pipeline with
  | nil =>
    simp only [Prepared.frontBuffer, shape] at read
    obtain ⟨kept, sameCapacity⟩ := read.oneSegment oneSegment
    simp only [Prepared.setFrontBuffer, shape]
    exact kept.resettable (sameCapacity.trans capacity)
  | cons pipe later =>
    simp only [Prepared.setFrontBuffer, shape]
    exact oneSegment.resettable capacity

private theorem WellPrepared.setFrontBuffer
    (well : WellPrepared protocol before connectionWriteBuffer packet prepared trace)
    (read : Reads prepared.frontBuffer buffer) :
    ∀ pipe ∈ (prepared.setFrontBuffer buffer).pipeline, pipe.WellFormed := by
  have pipeline := well.pipeline
  cases shape : prepared.pipeline with
  | nil => simp [Prepared.setFrontBuffer, shape]
  | cons pipe later =>
    simp only [Prepared.frontBuffer, shape] at read
    rw [shape] at pipeline
    obtain ⟨first, others⟩ := List.forall_mem_cons.mp pipeline
    simp only [Prepared.setFrontBuffer, shape]
    exact List.forall_mem_cons.mpr ⟨⟨first.readerBuffer, read.uses.wellFormed first.writerBuffer⟩, others⟩

/-- `WriteDirect` reads the writer buffer of the front pipe, which no other stage has read. -/
private theorem WellPrepared.setFrontBuffer_called
    (well : WellPrepared protocol before connectionWriteBuffer packet prepared trace)
    (passed : prepared.outcome = .passed) (read : Reads prepared.frontBuffer buffer) :
    List.Forall₂ PipeCall.Leaves trace.calls
        ((prepared.setFrontBuffer buffer).pipeline.reverse.take trace.calls.length) ∧
      (prepared.setFrontBuffer buffer).pipeline.reverse.drop trace.calls.length =
        before.pipeline.reverse.drop trace.calls.length := by
  have everyPipe := (well.passed.mp passed).everyPipe
  have others := well.others
  have beyond : before.pipeline.reverse.drop before.pipeline.length = [] := List.drop_of_length_le (by simp)
  rw [everyPipe, beyond, List.drop_eq_nil_iff] at others
  have called := well.called
  rw [everyPipe, List.take_of_length_le others, ← List.forall₂_reverse_iff, List.reverse_reverse]
    at called
  have every : List.Forall₂ PipeCall.Leaves trace.calls.reverse (prepared.setFrontBuffer buffer).pipeline := by
    cases shape : prepared.pipeline with
    | nil => simpa only [Prepared.setFrontBuffer, shape] using called
    | cons pipe later =>
      rw [shape, List.forall₂_cons_right_iff] at called
      obtain ⟨call, further, first, behind, same⟩ := called
      simp only [Prepared.frontBuffer, shape] at read
      simp only [Prepared.setFrontBuffer, shape, same]
      refine .cons ⟨?_, first.read.trans read⟩ behind
      rw [← first.same]
  have sameLength := every.length_eq
  rw [List.length_reverse] at sameLength
  rw [← List.forall₂_reverse_iff, List.reverse_reverse] at every
  constructor
  · rwa [List.take_of_length_le (by simp [sameLength])]
  · rw [List.drop_of_length_le (by simp [sameLength]), List.drop_of_length_le (by simp [everyPipe])]

private theorem closed_close (closer : UnixReadWriteCloser) : closer.close.closed = true := by
  unfold UnixReadWriteCloser.close
  cases closed : closer.closed with
  | false => rfl
  | true => exact closed

private theorem write_returns (contract : protocol.WritesByCalls) (wellFormed : before.WellFormed)
    (ready : connectionWriteBuffer.Resettable) (packet : ψ) (scratch : Block UInt8)
    (fits : ∀ prepared, prepare protocol before connectionWriteBuffer packet = .ok prepared →
      prepared.outcome = .passed →
      1 ≤ prepared.frontBuffer.readableBytes ∧ prepared.frontBuffer.readableBytes ≤ maxPacketSize) :
    Returns (write protocol before connectionWriteBuffer packet scratch) fun out =>
      out.1.WellFormed ∧ out.2.Resettable ∧
        ∃ trace, AllOrNothing protocol before connectionWriteBuffer packet out.1 trace := by
  obtain ⟨prepared, same, trace, well⟩ := prepare_returns contract wellFormed ready packet
  have settled := well.oneSegment.resettable well.capacity
  unfold write
  simp only [same, ok_bind]
  cases outcome : prepared.outcome with
  | failed =>
    have failed : trace.Failed := well.failed.mp outcome
    have held : ¬ trace.Passed before.pipeline.length := fun passed => by
      cases outcome.symm.trans (well.passed.mpr passed)
    refine (returns_ok _ _).mpr ⟨⟨well.pipeline, wellFormed.writerBuffer⟩, settled, trace, well.of, well.written,
      fun passed => absurd passed held, fun _ => rfl, ?_, well.bytePacketPipe, well.called, well.others⟩
    exact ⟨fun _ => .inr failed, fun _ => closed_close _⟩
  | declined =>
    have sound : ¬ trace.Failed := fun failed => by
      cases outcome.symm.trans (well.failed.mpr failed)
    have held : ¬ trace.Passed before.pipeline.length := fun passed => by
      cases outcome.symm.trans (well.passed.mpr passed)
    refine (returns_ok _ _).mpr ⟨⟨well.pipeline, wellFormed.writerBuffer⟩, settled, trace, well.of, well.written,
      fun passed => absurd passed held, fun _ => rfl, ?_, well.bytePacketPipe, well.called, well.others⟩
    exact ⟨.inl, fun closed => closed.resolve_right sound⟩
  | passed =>
    have sound : ¬ trace.Failed := fun failed => by
      cases outcome.symm.trans (well.failed.mpr failed)
    have passed : trace.Passed before.pipeline.length := well.passed.mp outcome
    obtain ⟨positive, bounded⟩ := fits prepared same outcome
    have enough : prepared.frontBuffer.readableBytes ≤ prepared.frontBuffer.content.length :=
      Nat.le_of_eq well.frontBuffer.length_content.symm
    refine (writeBytesFrom_transfers wellFormed.writerBuffer.represents scratch
      well.frontBuffer.represents positive bounded enough).bind ?_
    rintro ⟨writerBuffer, filled, buffer⟩ ⟨appended, -, read⟩
    rw [List.take_of_length_le (Nat.le_of_eq well.frontBuffer.length_content), well.front outcome] at appended
    obtain ⟨called, others⟩ := well.setFrontBuffer_called outcome read
    refine (returns_ok _ _).mpr ⟨⟨well.setFrontBuffer read, appended.wellFormed⟩,
      Prepared.setFrontBuffer_resettable well.oneSegment well.capacity read, trace, well.of, well.written,
      fun _ => appended.content, fun held => absurd passed held, ?_, well.bytePacketPipe, called, others⟩
    exact ⟨.inl, fun closed => closed.resolve_right sound⟩

end Appending

end PipedConnection

/-! ### The connections of a thread -/

/-- The connections of a thread, with its `connectionWriteBuffer`. -/
structure WriterThread (κ π ρ γ : Type) where
  connections : κ → PipedConnection π ρ γ
  connectionWriteBuffer : ByteBufferImpl

/-- A call of `Write`, with what the thread's `byteBufferWriteBuffer` holds in it. -/
structure PacketWrite (κ ψ : Type) where
  connection : κ
  packet : ψ
  scratch : Block UInt8

namespace WriterThread

/-- A thread that has written no packet yet. -/
def new (heap : Nat → Block UInt8) (connections : κ → PipedConnection π ρ γ) : WriterThread κ π ρ γ where
  connections := connections
  connectionWriteBuffer := .new heap maxPacketSize

def step [DecidableEq κ] (protocol : Protocol π ρ ψ γ) (thread : WriterThread κ π ρ γ) (call : PacketWrite κ ψ) :
    Exec (WriterThread κ π ρ γ × Unit) := do
  let (connection, connectionWriteBuffer) ← PipedConnection.write protocol
    (thread.connections call.connection) thread.connectionWriteBuffer call.packet call.scratch
  pure ({
    connections := Function.update thread.connections call.connection connection
    connectionWriteBuffer := connectionWriteBuffer }, ())

/-- A final buffer, if the call comes to one, holds something, and no more than the
thread's `byteBufferWriteBuffer`. -/
def Fits (protocol : Protocol π ρ ψ γ) (thread : WriterThread κ π ρ γ) (call : PacketWrite κ ψ) : Prop :=
  ∀ prepared, PipedConnection.prepare protocol (thread.connections call.connection) thread.connectionWriteBuffer
      call.packet = .ok prepared →
    prepared.outcome = .passed →
    1 ≤ prepared.frontBuffer.readableBytes ∧ prepared.frontBuffer.readableBytes ≤ maxPacketSize

open PipedConnection

private structure Sound (thread : WriterThread κ π ρ γ) : Prop where
  connections : ∀ connection, (thread.connections connection).WellFormed
  ready : thread.connectionWriteBuffer.Resettable

private theorem sound_new (heap : Nat → Block UInt8) {connections : κ → PipedConnection π ρ γ}
    (wellFormed : ∀ connection, (connections connection).WellFormed) : Sound (new heap connections) where
  connections := wellFormed
  ready := resettable_new heap

variable [DecidableEq κ] {protocol : Protocol π ρ ψ γ} {thread : WriterThread κ π ρ γ}

private theorem step_returns (contract : protocol.WritesByCalls) (sound : Sound thread) {call : PacketWrite κ ψ}
    (fits : Fits protocol thread call) :
    Returns (step protocol thread call) fun out => Sound out.1 ∧
      (∃ trace, AllOrNothing protocol (thread.connections call.connection) thread.connectionWriteBuffer call.packet
        (out.1.connections call.connection) trace) ∧
      ∀ other, other ≠ call.connection → out.1.connections other = thread.connections other := by
  refine (write_returns contract (sound.connections call.connection) sound.ready call.packet call.scratch fits).bind ?_
  rintro ⟨connection, connectionWriteBuffer⟩ ⟨kept, ready, trace, done⟩
  refine (returns_ok _ _).mpr ⟨⟨?_, ready⟩, ⟨trace, ?_⟩, fun other apart => Function.update_of_ne apart _ _⟩
  · intro other
    by_cases same : other = call.connection
    · cases same
      simpa only [Function.update_self] using kept
    · simpa only [Function.update_of_ne same] using sound.connections other
  · simpa only [Function.update_self] using done

/-- After any calls of `Write` on the connections of a thread, the next one is all or
nothing, and leaves the other connections alone. Every call of a run is the next one
of a shorter run. -/
theorem writes_all_or_nothing (contract : protocol.WritesByCalls) (heap : Nat → Block UInt8)
    (connections : κ → PipedConnection π ρ γ) (wellFormed : ∀ connection, (connections connection).WellFormed)
    (calls : List (PacketWrite κ ψ))
    (fits : Transition.Meets (step protocol) (Fits protocol) (new heap connections) calls) :
    ∃ thread outputs, Transition.run (step protocol) (new heap connections) calls = .ok (thread, outputs) ∧
      ∀ call, Fits protocol thread call →
        ∃ next trace, step protocol thread call = .ok (next, ()) ∧
          AllOrNothing protocol (thread.connections call.connection) thread.connectionWriteBuffer call.packet
            (next.connections call.connection) trace ∧
          ∀ other, other ≠ call.connection → next.connections other = thread.connections other := by
  obtain ⟨⟨thread, outputs⟩, ran, sound⟩ := Transition.run_keeps Sound
    (fun thread call sound fits => (step_returns contract sound fits).mono fun out next => next.1)
    (sound_new heap wellFormed) fits
  refine ⟨thread, outputs, ran, ?_⟩
  intro call fits
  obtain ⟨⟨next, _⟩, stepped, -, ⟨trace, done⟩, others⟩ := step_returns contract sound fits
  exact ⟨next, trace, stepped, done, others⟩

/-! ### Two connections -/

/-- Byte pipes that put a byte in front of what they are offered and answer their
state, and a packet pipe that writes the bytes of the packet. -/
private def marking : Protocol (Errorable Nat) Unit UInt8 Unit where
  readPipe pipe input := pure (successErrorable 0, pipe, input)
  writePipe pipe input := do
    let writerBuffer ← pipe.writerBuffer.writeBytes [7]
    let (_, input) ← input.readByte
    pure (pipe.state, { pipe with writerBuffer := writerBuffer }, input)
  readPacket pipe input := pure (invalidArgumentErrorable .incompleteFrame 0, pipe, input)
  writePacket pipe buffer packet := do
    let buffer ← buffer.writeBytes [packet, packet]
    pure (successErrorable true, pipe, buffer)
  callbacks := []

private theorem marking_writesByCalls : marking.WritesByCalls where
  writePipe := by
    intro pipe input wellFormed readable
    obtain ⟨writerBuffer, wrote, -⟩ := writeBytes_represents wellFormed.writerBuffer.represents [7]
    obtain ⟨out, stepped, -⟩ := step_holds readable.represents (show Operation.Proper .readByte from trivial)
    obtain ⟨answer, read, -⟩ := returns_of_bind stepped
    simp only [marking, wrote, read, ok_bind, pure_is_ok, returns_ok]
    refine ⟨⟨[.readByte], [reply (fun byte => [byte]) answer.1], by simp [Operation.HasRoom, Operation.IsRead], ?_⟩,
      (Reads.refl _).uses, [.writeBytes [7]], [.pushed], by simp [Operation.HasRoom], ?_⟩
    · simp only [Transition.run, ByteBufferImpl.step, read, ok_bind, pure_is_ok]
    · simp only [Transition.run, ByteBufferImpl.step, wrote, ok_bind, pure_is_ok]
  writePacket := by
    intro pipe buffer packet empty
    obtain ⟨after, wrote, -⟩ := writeBytes_represents empty [packet, packet]
    simp only [marking, wrote, ok_bind, pure_is_ok, returns_ok]
    have few : [packet, packet].length < maxPacketSize := by
      simp only [List.length_cons, List.length_nil, maxPacketSize]
      omega
    refine ⟨[packet, packet], few, [.writeBytes [packet, packet]], [.pushed], by simp [Operation.IsWrite], rfl, ?_⟩
    simp only [Transition.run, ByteBufferImpl.step, wrote, ok_bind, pure_is_ok]

private def markingPipe (answer : Errorable Nat) : DuplexPipe (Errorable Nat) where
  readerBuffer := .new (fun _ _ => 0) 4
  writerBuffer := .new (fun _ _ => 0) 4
  state := answer

/-- The one behind `true` has a single pipe that passes on what it writes, the other
one has a second pipe in front of such a pipe, which fails. -/
private def markingConnection (healthy : Bool) : PipedConnection (Errorable Nat) Unit Unit where
  pipeline := if healthy then [markingPipe (successErrorable 1)]
    else [markingPipe ⟨.errno, 0, 0⟩, markingPipe (successErrorable 1)]
  bytePacketPipe := ()
  mainPacketHandler := ⟨0⟩
  packetHandlers := []
  readerBuffer := .new (fun _ _ => 0) 4
  writerBuffer := .new (fun _ _ => 0) 4
  readWriteCloser := {}
  user := ()

private theorem markingPipe_wellFormed (answer : Errorable Nat) : (markingPipe answer).WellFormed :=
  ⟨(represents_new _ (by decide : 0 < 4)).wellFormed, (represents_new _ (by decide : 0 < 4)).wellFormed⟩

private theorem markingConnection_wellFormed (healthy : Bool) : (markingConnection healthy).WellFormed where
  pipeline := by
    intro pipe member
    cases healthy with
    | false =>
      simp only [markingConnection, Bool.false_eq_true, if_false, List.mem_cons, List.not_mem_nil, or_false] at member
      rcases member with rfl | rfl
      · exact markingPipe_wellFormed _
      · exact markingPipe_wellFormed _
    | true =>
      simp only [markingConnection, if_true, List.mem_singleton] at member
      cases member
      exact markingPipe_wellFormed _
  writerBuffer := (represents_new _ (by decide : 0 < 4)).wellFormed

/-- How the part in front of `WriteDirect` ends, and how much it leaves there. -/
private def ending (prepared : Prepared π ρ) : Outcome × Nat :=
  (prepared.outcome, prepared.frontBuffer.readableBytes)

omit [DecidableEq κ] in
private theorem fits_of_ending {call : PacketWrite κ ψ} {outcome : Outcome} {size : Nat}
    (evaluated : (prepare protocol (thread.connections call.connection) thread.connectionWriteBuffer
      call.packet).map ending = .ok (outcome, size))
    (inside : outcome = .passed → 1 ≤ size ∧ size ≤ maxPacketSize) : Fits protocol thread call := by
  intro prepared same passed
  rw [same] at evaluated
  cases evaluated
  exact inside passed

private def healthyCall : PacketWrite Bool UInt8 := ⟨true, 5, fun _ => 0⟩
private def failingCall : PacketWrite Bool UInt8 := ⟨false, 6, fun _ => 0⟩

/-- A packet behind one that a pipe failed on: nothing of that one is sent, and the next one
meets nothing of it. -/
theorem write_after_failure_all_or_nothing :
    ∃ thread outputs, Transition.run (step marking) (new (fun _ _ => 0) markingConnection)
        [failingCall] = .ok (thread, outputs) ∧
      (thread.connections false).writerBuffer.content = [] ∧
      (thread.connections false).readWriteCloser.closed = true ∧
      ∃ next trace, step marking thread healthyCall = .ok (next, ()) ∧
        AllOrNothing marking (thread.connections true) thread.connectionWriteBuffer 5 (next.connections true)
          trace ∧
        trace.packetBuffer.readableBytes = 2 ∧ (next.connections true).writerBuffer.content = [7] := by
  have failing : (prepare marking (markingConnection false) (.new (fun _ _ => 0) maxPacketSize) 6).map ending =
      .ok (.failed, 1) := rfl
  obtain ⟨thread, outputs, ran, nextCall⟩ := writes_all_or_nothing marking_writesByCalls (fun _ _ => 0)
    markingConnection markingConnection_wellFormed [failingCall]
    ⟨fits_of_ending failing (by simp), fun _ _ _ => trivial⟩
  have aborted : (Transition.run (step marking) (new (fun _ _ => 0) markingConnection) [failingCall]).map
      (fun out => ((out.1.connections false).writerBuffer.content, (out.1.connections false).readWriteCloser.closed)) =
        .ok ([], true) := rfl
  have shown : (Transition.run (step marking) (new (fun _ _ => 0) markingConnection) [failingCall]).bind
      (fun out => (prepare marking (out.1.connections true) out.1.connectionWriteBuffer 5).map ending) =
        .ok (.passed, 1) := rfl
  have offered : (Transition.run (step marking) (new (fun _ _ => 0) markingConnection) [failingCall]).bind
      (fun out => (marking.writePacket () out.1.connectionWriteBuffer.resetReaderIndex.resetWriterIndex 5).map
        (·.2.2.readableBytes)) = .ok 2 := rfl
  have sent : (Transition.run (step marking) (new (fun _ _ => 0) markingConnection) [failingCall]).bind
      (fun out => (step marking out.1 healthyCall).map fun out => (out.1.connections true).writerBuffer.content) =
        .ok [7] := rfl
  rw [ran] at aborted shown offered sent
  obtain ⟨next, trace, stepped, done, -⟩ := nextCall healthyCall (fits_of_ending shown (by decide))
  have held := Prod.mk.inj (Except.ok.inj aborted)
  refine ⟨thread, outputs, ran, held.1, held.2, next, trace, stepped, done, ?_, ?_⟩
  · obtain ⟨answer, wrote, same⟩ := returns_of_map offered
    cases done.of.packetPipe.symm.trans wrote
    exact same
  · obtain ⟨out, wrote, same⟩ := returns_of_map sent
    cases stepped.symm.trans wrote
    exact same

end WriterThread

end ShipNet
