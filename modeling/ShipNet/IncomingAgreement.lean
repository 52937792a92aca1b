import ShipNet.Agreement
import ShipNet.HandleNewBytes

/-! `HandleNewBytes` of connections that are alike in all that it uses of them. A record
kept beside a connection is such a likeness. -/
namespace ShipNet
open Fallible

variable {κ τ α β γ φ χ : Type}

/-! ### Buffers -/

/-- Setting the buffers keeps the one connection like the other one. -/
structure PipedBuffers.Likens (buffers : PipedBuffers κ α) (other : PipedBuffers τ β) (like : κ → τ → Prop)
    (pipeLike : α → β → Prop) : Prop where
  readerBuffer : ∀ c d, like c d → buffers.readerBuffer c = other.readerBuffer d
  pipeline : ∀ c d, like c d → List.Forall₂ pipeLike (buffers.pipeline c) (other.pipeline d)
  setBuffers : ∀ c d buffer pipes others, like c d → List.Forall₂ pipeLike pipes others →
    like (buffers.setBuffers c buffer pipes) (other.setBuffers d buffer others)
  pipeBuffer : ∀ pipe partner, pipeLike pipe partner → buffers.pipeBuffer pipe = other.pipeBuffer partner
  setPipeBuffer : ∀ pipe partner buffer, pipeLike pipe partner →
    pipeLike (buffers.setPipeBuffer pipe buffer) (other.setPipeBuffer partner buffer)

/-- Pipelines that are alike end alike. -/
private theorem forall₂_concat {related : α → β → Prop} {pipes : List α} {others : List β}
    (alike : List.Forall₂ related pipes others) :
    (pipes = [] ∧ others = []) ∨ ∃ first last firstToo lastToo, pipes = first ++ [last] ∧
      others = firstToo ++ [lastToo] ∧ List.Forall₂ related first firstToo ∧ related last lastToo := by
  rcases List.eq_nil_or_concat' pipes with rfl | ⟨first, last, rfl⟩
  · exact .inl ⟨rfl, List.forall₂_nil_left_iff.mp alike⟩
  · rw [← List.forall₂_reverse_iff, List.reverse_append, List.reverse_singleton, List.singleton_append] at alike
    obtain ⟨lastToo, back, same, behind, split⟩ := List.forall₂_cons_left_iff.mp alike
    rw [List.reverse_eq_cons_iff] at split
    rw [← List.forall₂_reverse_iff, List.reverse_reverse] at behind
    exact .inr ⟨first, last, back.reverse, lastToo, rfl, split, behind, same⟩

section
variable {buffers : PipedBuffers κ α} {other : PipedBuffers τ β} {like : κ → τ → Prop} {pipeLike : α → β → Prop}
  {c : κ} {d : τ}

theorem PipedBuffers.Likens.packetBuffer (likens : buffers.Likens other like pipeLike) (alike : like c d) :
    buffers.packetBuffer c = other.packetBuffer d := by
  unfold PipedBuffers.packetBuffer
  rcases forall₂_concat (likens.pipeline c d alike) with
    ⟨none, noneToo⟩ | ⟨first, last, firstToo, lastToo, shape, shapeToo, -, same⟩
  · rw [none, noneToo]
    exact likens.readerBuffer c d alike
  · rw [shape, shapeToo, List.getLast?_concat, List.getLast?_concat]
    exact likens.pipeBuffer last lastToo same

theorem PipedBuffers.Likens.setPacketBuffer (likens : buffers.Likens other like pipeLike) (alike : like c d)
    (buffer : ByteBufferImpl) : like (buffers.setPacketBuffer c buffer) (other.setPacketBuffer d buffer) := by
  have pipes := likens.pipeline c d alike
  unfold PipedBuffers.setPacketBuffer
  rw [likens.readerBuffer c d alike]
  rcases forall₂_concat pipes with ⟨none, noneToo⟩ | ⟨first, last, firstToo, lastToo, shape, shapeToo, front, same⟩
  · rw [none, noneToo] at pipes ⊢
    exact likens.setBuffers c d buffer [] [] alike pipes
  · rw [shape, shapeToo, List.getLast?_concat, List.getLast?_concat, List.dropLast_concat, List.dropLast_concat]
    refine likens.setBuffers c d _ _ _ alike ?_
    exact List.rel_append front (.cons (likens.setPipeBuffer last lastToo buffer same) .nil)

end

namespace Incoming

/-! ### `HandleNewBytes` -/

/-- What `HandleNewBytes` uses keeps the one connection like the other one. -/
structure Likens (incoming : Incoming κ α γ φ) (other : Incoming τ β γ χ) (like : κ → τ → Prop)
    (pipeLike : α → β → Prop) (shownLike : φ → χ → Prop) : Prop
    extends incoming.toPipedBuffers.Likens other.toPipedBuffers like pipeLike where
  readPipe : ∀ pipe partner buffer, pipeLike pipe partner →
    Agree (fun out answer => pipeLike out.2.1 answer.2.1 ∧ out.2.2 = answer.2.2) (incoming.readPipe pipe buffer)
      (other.readPipe partner buffer)
  readPacket : ∀ c d, like c d → Agree
    (fun out answer => out.1 = answer.1 ∧ shownLike out.2.1 answer.2.1 ∧ like out.2.2 answer.2.2)
    (incoming.readPacket c) (other.readPacket d)
  callbacks : incoming.callbacks = other.callbacks
  mainPacketHandler : ∀ c d, like c d → incoming.mainPacketHandler c = other.mainPacketHandler d
  packetHandlers : ∀ c d, like c d → incoming.packetHandlers c = other.packetHandlers d
  user : ∀ c d, like c d → incoming.user c = other.user d
  handled : ∀ c d receiver packet shown shownToo user buffer invocations, like c d →
    shownLike shown shownToo →
    like (incoming.handled c receiver packet shown user buffer invocations)
      (other.handled d receiver packet shownToo user buffer invocations)
  close : ∀ c d, like c d → like (incoming.close c) (other.close d)

variable {incoming : Incoming κ α γ φ} {other : Incoming τ β γ χ} {like : κ → τ → Prop} {pipeLike : α → β → Prop}
  {shownLike : φ → χ → Prop} {c : κ} {d : τ} {shown : φ} {shownToo : χ}

theorem Likens.readPipeline (likens : Likens incoming other like pipeLike shownLike) (buffer : ByteBufferImpl)
    {pipes : List α} {others : List β} (alike : List.Forall₂ pipeLike pipes others) :
    Agree (fun out answer => out.1 = answer.1 ∧ List.Forall₂ pipeLike out.2 answer.2)
      (incoming.readPipeline buffer pipes) (other.readPipeline buffer others) := by
  induction alike generalizing buffer with
  | nil => exact ⟨rfl, .nil⟩
  | @cons pipe partner pipes others first later ih =>
    unfold Incoming.readPipeline
    refine (likens.readPipe pipe partner buffer first).bind ?_
    rintro ⟨result, read, left⟩ ⟨resultToo, readToo, _⟩ ⟨kept, rfl⟩
    simp only at kept ⊢
    rw [← likens.pipeBuffer read readToo kept]
    refine (ih (incoming.pipeBuffer read)).bind ?_
    rintro ⟨readerBuffer, behind⟩ ⟨_, behindToo⟩ ⟨rfl, alike⟩
    exact ⟨rfl, .cons (likens.setPipeBuffer read readToo readerBuffer kept) alike⟩

theorem Likens.receive (likens : Likens incoming other like pipeLike shownLike) (alike : like c d) (page : List UInt8) :
    Agree like (incoming.receive c page) (other.receive d page) := by
  unfold Incoming.receive
  rw [← likens.readerBuffer c d alike]
  refine (Agree.refl _).bind ?_
  rintro written _ rfl
  refine (likens.readPipeline written (likens.pipeline c d alike)).bind ?_
  rintro ⟨readerBuffer, pipeline⟩ ⟨_, pipelineToo⟩ ⟨rfl, pipes⟩
  exact likens.setBuffers c d readerBuffer pipeline pipelineToo alike pipes

theorem Likens.offer (likens : Likens incoming other like pipeLike shownLike) (alike : like c d) (receiver : Receiver)
    (handler : PacketHandler) (packet : PacketHolder) (same : shownLike shown shownToo) :
    Agree (fun out answer => out.1 = answer.1 ∧ like out.2 answer.2) (incoming.offer c receiver handler packet shown)
      (other.offer d receiver handler packet shownToo) := by
  unfold Incoming.offer
  rw [likens.callbacks, likens.toLikens.packetBuffer alike, likens.user c d alike]
  refine (Agree.refl _).bind ?_
  rintro ⟨wasHandled, user, buffer, invocations⟩ _ rfl
  exact ⟨rfl, likens.handled c d receiver packet shown shownToo user buffer invocations alike same⟩

theorem Likens.offerFurther (likens : Likens incoming other like pipeLike shownLike) (alike : like c d)
    (packet : PacketHolder) (same : shownLike shown shownToo) (items : List PacketHandler) :
    Agree like (incoming.offerFurther packet shown items c) (other.offerFurther packet shownToo items d) := by
  induction items generalizing c d with
  | nil => exact alike
  | cons item later ih =>
    refine (likens.offer alike .packetHandlers item packet same).bind ?_
    rintro ⟨wasHandled, next⟩ ⟨_, partner⟩ ⟨rfl, kept⟩
    have settled : like (if !wasHandled.isSuccess then incoming.close next else next)
        (if !wasHandled.isSuccess then other.close partner else partner) := by
      cases wasHandled.isSuccess with
      | false => exact likens.close next partner kept
      | true => exact kept
    simp only
    cases wasHandled.value with
    | false => exact ih settled
    | true => exact settled

theorem Likens.dispatch (likens : Likens incoming other like pipeLike shownLike) (alike : like c d)
    (packet : Errorable PacketHolder) (same : shownLike shown shownToo) :
    Agree like (incoming.dispatch c packet shown) (other.dispatch d packet shownToo) := by
  unfold Incoming.dispatch
  cases packet.isSuccess with
  | true =>
    simp only [if_true, ← likens.mainPacketHandler c d alike]
    refine (likens.offer alike .mainPacketHandler _ packet.value same).bind ?_
    rintro ⟨wasHandled, next⟩ ⟨_, partner⟩ ⟨rfl, kept⟩
    simp only at kept ⊢
    cases wasHandled.isSuccess with
    | false => exact likens.close next partner kept
    | true =>
      cases wasHandled.value with
      | true => exact kept
      | false =>
        simp only [Bool.not_true, Bool.false_eq_true, if_false, Bool.not_false, if_true,
          ← likens.packetHandlers next partner kept]
        exact likens.offerFurther kept packet.value same _
  | false =>
    simp only [Bool.false_eq_true, if_false]
    split
    · exact likens.close c d alike
    · exact alike

/-- Call after call they stay alike. -/
theorem Likens.handleNewBytes (likens : Likens incoming other like pipeLike shownLike) (alike : like c d)
    (page : List UInt8) :
    Agree like (incoming.handleNewBytes c page) (other.handleNewBytes d page) := by
  refine (likens.receive alike page).bind fun reached partner alike => ?_
  unfold Incoming.handlePacket
  refine (likens.readPacket reached partner alike).bind ?_
  rintro ⟨packet, shown, next⟩ ⟨_, shownToo, nextToo⟩ ⟨rfl, same, alike⟩
  exact likens.dispatch alike packet same

/-! ### Records -/

theorem recording_likens {ω : Type} (incoming : Incoming κ α γ φ) (note : κ → Receiver → PacketHolder → φ → ω) :
    Likens (incoming.recording note) incoming (fun r c => r.1 = c) Eq Eq where
  readerBuffer := by
    rintro r _ rfl
    rfl
  pipeline := by
    rintro r _ rfl
    exact List.forall₂_refl _
  setBuffers := by
    rintro r _ buffer pipes others rfl same
    rw [List.forall₂_eq_eq_eq] at same
    subst same
    rfl
  pipeBuffer := by
    rintro pipe _ rfl
    rfl
  setPipeBuffer := by
    rintro pipe _ buffer rfl
    rfl
  readPipe := by
    rintro pipe _ buffer rfl
    refine (Agree.refl _).mono ?_
    rintro out _ rfl
    exact ⟨rfl, rfl⟩
  readPacket := by
    rintro r _ rfl
    refine (Agree.refl (incoming.readPacket r.1)).bind_pure ?_
    rintro out _ rfl
    exact ⟨rfl, rfl, rfl⟩
  callbacks := rfl
  mainPacketHandler := by
    rintro r _ rfl
    rfl
  packetHandlers := by
    rintro r _ rfl
    rfl
  user := by
    rintro r _ rfl
    rfl
  handled := by
    rintro r _ receiver packet shown _ user buffer invocations rfl rfl
    rfl
  close := by
    rintro r _ rfl
    rfl

/-- The record is beside the code: without it, this is `HandleNewBytes`. -/
theorem recording_erased {ω : Type} (incoming : Incoming κ α γ φ) (note : κ → Receiver → PacketHolder → φ → ω)
    (r : κ × List ω) (page : List UInt8) :
    ((incoming.recording note).handleNewBytes r page).map Prod.fst = incoming.handleNewBytes r.1 page := by
  have agree : Agree (fun out plain => out.1 = id plain) ((incoming.recording note).handleNewBytes r page)
      (incoming.handleNewBytes r.1 page) := (recording_likens incoming note).handleNewBytes rfl page
  have same := agree.map_eq
  rwa [Except.map_id] at same

end Incoming

end ShipNet
