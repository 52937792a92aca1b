import ShipNet.ByteBufferQueue

/-! The buffers that calls lead to, by reads of any size. A read past the range of
`bytesIndex` stores its bytes in the wrong places, but takes the right ones. -/
namespace ShipNet.ByteBufferImpl
open Fallible

variable {s : ByteBufferImpl} {cap : Nat} {bytes : List UInt8}

/-! ### Reads of any size -/

/-- A read that the queue can serve takes the oldest bytes out of the buffer. -/
theorem readBytes_drops (held : Represents cap bytes s) (output : OutputArray) {size : Nat}
    (positive : 0 < size) (room : size ≤ output.size) (enough : size ≤ bytes.length) :
    Returns (s.readBytes output size) fun out =>
      out.1.isSuccess = true ∧ Represents cap (bytes.drop size) out.2.2 := by
  obtain ⟨⟨taken, after⟩, took, -, remaining⟩ := takeBytes_represents held enough
  refine (readBytes_takes took held.wellFormed.capacity held.wellFormed.readerIndex positive
    (by rw [held.readable]; exact enough) output room).mono ?_
  rintro ⟨result, filled, final⟩ ⟨same, rfl, -⟩
  simp only at same
  subst same
  exact ⟨rfl, remaining⟩

/-! ### Runs of any calls -/

/-- A call leaves the bytes that the queue has left, whatever a read stored. -/
theorem step_holds (held : Represents cap bytes s) {operation : Operation} (proper : operation.Proper) :
    Returns (s.step operation) fun out => Represents cap (Fifo.serve bytes operation.request).1 out.1 := by
  cases operation with
  | writeByte input => exact (step_represents held proper trivial).mono fun _ out => out.1
  | writeBytes input => exact (step_represents held proper trivial).mono fun _ out => out.1
  | readByte => exact (step_represents held proper trivial).mono fun _ out => out.1
  | readBytes output size =>
    by_cases enough : size ≤ bytes.length
    · refine (readBytes_drops held output proper.1 proper.2 enough).bind ?_
      rintro ⟨result, filled, after⟩ ⟨-, remaining⟩
      refine (returns_ok _ _).mpr ?_
      simpa only [Operation.request, Fifo.serve, enough, if_true] using remaining
    · refine (step_represents held proper ?_).mono fun _ out => out.1
      intro served
      rw [held.readable] at served
      exact absurd served enough

/-- A buffer of this capacity that some calls lead to from a fresh one. -/
def Reached (cap : Nat) (s : ByteBufferImpl) : Prop :=
  ∃ heap operations replies, (∀ operation ∈ operations, Operation.Proper operation) ∧
    Transition.run step (new heap cap) operations = .ok (s, replies)

theorem run_holds (held : Represents cap bytes s) {operations : List Operation}
    (proper : ∀ operation ∈ operations, operation.Proper) :
    Returns (Transition.run step s operations) fun out => ∃ bytes, Represents cap bytes out.1 := by
  refine Transition.run_keeps (fun s => ∃ bytes, Represents cap bytes s) ?_ ⟨bytes, held⟩
    (Transition.meets_of_forall fun operation member _ => proper operation member)
  rintro s operation ⟨bytes, held⟩ proper
  exact (step_holds held proper).mono fun out kept => ⟨_, kept⟩

theorem Reached.represents (reached : Reached cap s) (positive : 0 < cap) : Represents cap s.content s := by
  obtain ⟨heap, operations, replies, proper, ran⟩ := reached
  obtain ⟨out, same, bytes, held⟩ := run_holds (represents_new heap positive) proper
  cases ran.symm.trans same
  rwa [held.content]

end ShipNet.ByteBufferImpl
