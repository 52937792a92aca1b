import ShipNet.PacketDelivery

/-! What the handlers of a connection take of a packet's body. They all share the
buffer of the connection, so every callback that is called takes as many bytes
again. The body is taken once, and the next frame found, exactly if one callback
is called, or the body is empty. -/
namespace ShipNet
open Fallible ByteBufferImpl FramedByteBytePipe

/-- What `SetPacketCallback` registers for a packet class with a handler class. -/
structure Registration (γ τ : Type) where
  instantiate : PacketHolder → ByteBufferImpl → Exec (Errorable τ × ByteBufferImpl)
  callback : PacketHandler → γ → τ → Exec (Errorable Bool × γ)

namespace Registration

variable {γ τ : Type}

def registered (registration : Registration γ τ) : Callback γ :=
  PacketHandler.setPacketCallback registration.instantiate registration.callback

/-- `Instantiate` reads exactly the body, and the callback answers the packet
without an error. -/
def ReadsBody (answer : PacketHandler → γ → List UInt8 → Bool) (registration : Registration γ τ) : Prop :=
  ∀ (cap : Nat) (bytes : List UInt8) (input : ByteBufferImpl) (holder : PacketHolder)
    (handler : PacketHandler) (user : γ),
    Represents cap bytes input → holder.expectedSize.toNat ≤ bytes.length →
    Returns (registration.instantiate holder input) fun read =>
      read.1.isSuccess = true ∧ Represents cap (bytes.drop holder.expectedSize.toNat) read.2 ∧
      Returns (registration.callback handler user read.1.value) fun out =>
        out.1.isSuccess = true ∧ out.1.value = answer handler user (bytes.take holder.expectedSize.toNat)

/-- `SetPacketCallback` finds the size it expects: the size before, which it
keeps in a `uint32_t`, is not cut off. -/
def Measurable (readableBytes : Nat) : Prop :=
  readableBytes % 2 ^ 64 < 2 ^ 32

instance : DecidablePred Measurable :=
  fun readableBytes => inferInstanceAs (Decidable (readableBytes % 2 ^ 64 < 2 ^ 32))

theorem measured_iff {readable taken : Nat} {expectedSize : UInt32} (size : expectedSize.toNat = taken)
    (enough : taken ≤ readable) :
    (UInt32.ofNat readable).toUInt64 - UInt64.ofNat (readable - taken) = expectedSize.toUInt64 ↔
      Measurable readable := by
  have bound := expectedSize.toNat_lt
  have wide : (2 : Nat) ^ 64 = 2 ^ 32 * 2 ^ 32 := by decide
  rw [← UInt64.toNat_inj, UInt64.toNat_sub, UInt32.toNat_toUInt64, UInt32.toNat_toUInt64, UInt64.toNat_ofNat',
    UInt32.toNat_ofNat', size, Measurable]
  omega

end Registration

namespace FramedBytePacketPipe

variable {δ : Type}

/-- The next frame is there to its end, with its length or after it. -/
inductive AtFrame (cap : Nat) (pipe : FramedBytePacketPipe δ) (input : ByteBufferImpl)
    (packet rest : List UInt8) : Prop
  | fresh (frame : Framing.Frame) (allowed : Allowed pipe.maxReadSize frame) (same : frame.body = packet)
      (between : pipe.nextReadFrameLength = 0) (held : Represents cap (frame.bytes ++ rest) input)
  | announced (length : pipe.nextReadFrameLength.toNat = packet.length)
      (held : Represents cap (packet ++ rest) input)

theorem AtFrame.read (readPacket : ReadPacket δ) {cap : Nat} {pipe : FramedBytePacketPipe δ}
    {input : ByteBufferImpl} {packet rest : List UInt8} (there : AtFrame cap pipe input packet rest)
    (nonempty : packet ≠ []) :
    packet.length < 2 ^ 32 ∧ ∃ input', Represents cap (packet ++ rest) input' ∧
      pipe.read readPacket input = (do
        let (answer, decoder, input) ← readPacket pipe.decoder input' (.ofNat packet.length)
        pure {
          packet := answer
          pipe := { pipe with nextReadFrameLength := 0, decoder := decoder }
          input := input
          frame := packet }) := by
  cases there with
  | fresh frame allowed same between held =>
    subst same
    exact ⟨Nat.lt_of_le_of_lt allowed.2 pipe.maxReadSize.toNat_lt,
      read_frame readPacket allowed nonempty between held⟩
  | announced length held =>
    have bound : packet.length < 2 ^ 32 := length ▸ pipe.nextReadFrameLength.toNat_lt
    have pending : ¬ pipe.nextReadFrameLength = 0 := by
      intro zero
      rw [zero] at length
      exact nonempty (List.length_eq_zero_iff.mp length.symm)
    have number : pipe.nextReadFrameLength = .ofNat packet.length := by
      rw [← length, UInt32.ofNat_toNat]
    have enough : packet.length ≤ input.readableBytes := by
      rw [held.readable, List.length_append]
      omega
    refine ⟨bound, input, held, ?_⟩
    rw [← number]
    exact (if_neg pending).trans (readFrame_there readPacket held length nonempty enough)

end FramedBytePacketPipe

namespace PacketHandler

variable {γ τ : Type} {callbacks : List (List (Option (Callback γ)))} {handler : PacketHandler} {user : γ}
  {packet : PacketHolder} {buffer : ByteBufferImpl}

theorem handle_silent (silent : lookup callbacks handler packet.ordinal = none) :
    handle callbacks handler user packet buffer = .ok (successErrorable false, user, buffer, []) := by
  simp only [handle, silent, pure_is_ok]

/-- A callback is called once, with the buffer as it is. -/
theorem handle_called {callback : Callback γ} (found : lookup callbacks handler packet.ordinal = some callback)
    {out : Errorable Bool × γ × ByteBufferImpl × List Invocation}
    (ran : handle callbacks handler user packet buffer = .ok out) :
    out.2.2.2 = [⟨handler, buffer.content, out.2.2.1.content⟩] := by
  simp only [handle, found] at ran
  obtain ⟨answer, -, same⟩ := returns_of_bind ran
  cases same
  rfl

/-- A callback that has its body takes it, and accepts the packet if it can
measure it and the function behind it answers so. -/
theorem handle_registered {registration : Registration γ τ} {answer : PacketHandler → γ → List UInt8 → Bool}
    {cap : Nat} {bytes : List UInt8}
    (found : lookup callbacks handler packet.ordinal = some registration.registered)
    (reads : registration.ReadsBody answer) (held : Represents cap bytes buffer)
    (enough : packet.expectedSize.toNat ≤ bytes.length) :
    Returns (handle callbacks handler user packet buffer) fun out =>
      (out.1.isSuccess = true ↔ Registration.Measurable bytes.length) ∧
      (out.1.value = true ↔ Registration.Measurable bytes.length ∧
        answer handler user (bytes.take packet.expectedSize.toNat) = true) ∧
      Represents cap (bytes.drop packet.expectedSize.toNat) out.2.2.1 := by
  obtain ⟨⟨pkt, after⟩, instantiated, success, remaining, ⟨⟨handled, user'⟩, called, answered, value⟩⟩ :=
    reads cap bytes buffer packet handler user held enough
  have before : buffer.readableBytes = bytes.length := held.readable
  have left : after.readableBytes = bytes.length - packet.expectedSize.toNat := by
    rw [remaining.readable, List.length_drop]
  have measured := Registration.measured_iff rfl enough
  simp only at success answered value
  simp only [handle, found, Registration.registered, setPacketCallback, instantiated, ok_bind, success,
    Bool.not_true, Bool.false_eq_true, if_false, before, left]
  by_cases fits : Registration.Measurable bytes.length
  · have found := measured.mpr fits
    simp only [found, ne_eq, not_true, if_false, called, ok_bind, pure_is_ok, returns_ok]
    exact ⟨by simp [answered, fits], by simp [value, fits], remaining⟩
  · have missed := mt measured.mp fits
    simp only [ne_eq, missed, not_false_iff, if_true, pure_is_ok, ok_bind, returns_ok]
    exact ⟨by simp [invalidPacketSizeErrorable, fits], by simp [invalidPacketSizeErrorable, fits], remaining⟩

end PacketHandler

namespace Connection

variable {π δ γ τ : Type} {app : Application π δ γ} {c next after : Connection π δ γ}

theorem packetBuffer_setPacketBuffer (c : Connection π δ γ) (buffer : ByteBufferImpl) :
    (c.setPacketBuffer buffer).packetBuffer = buffer := by
  unfold setPacketBuffer packetBuffer PipedBuffers.setPacketBuffer PipedBuffers.packetBuffer
  cases last : c.pipeline.getLast? with
  | none => simp [buffers, last]
  | some pipe => simp [buffers, last]

/-- What offers to handlers change: the packet buffer, and the calls made. -/
structure Offered (c : Connection π δ γ) (invocations : List Invocation) (next : Connection π δ γ) :
    Prop where
  pipe : next.bytePacketPipe = c.bytePacketPipe
  further : next.packetHandlers = c.packetHandlers
  invocations : next.invocations = c.invocations ++ invocations

theorem Offered.close {invocations : List Invocation} (offered : Offered c invocations next) :
    Offered c invocations next.close :=
  ⟨offered.pipe, offered.further, offered.invocations⟩

theorem Offered.trans {first second : List Invocation} (offered : Offered c first next)
    (later : Offered next second after) : Offered c (first ++ second) after where
  pipe := later.pipe.trans offered.pipe
  further := later.further.trans offered.further
  invocations := by rw [later.invocations, offered.invocations, List.append_assoc]

variable {receiver : Receiver} {handler : PacketHandler} {packet : PacketHolder} {frame : List UInt8}

/-- An offer is a call of `Handle` on the packet buffer. -/
theorem offer_handled {wasHandled : Errorable Bool} {user : γ} {buffer : ByteBufferImpl}
    {invocations : List Invocation}
    (handled : handler.handle app.callbacks c.user packet c.packetBuffer =
      .ok (wasHandled, user, buffer, invocations)) :
    ∃ next, offer app c receiver handler packet frame = .ok (wasHandled, next) ∧
      Offered c invocations next ∧ next.packetBuffer = buffer ∧ next.user = user := by
  obtain ⟨readerBuffer, pipeline, replaced⟩ := setPacketBuffer_buffers c buffer
  have same := packetBuffer_setPacketBuffer c buffer
  rw [offer_eq, handled]
  refine ⟨_, rfl, ?_⟩
  rw [replaced] at same ⊢
  exact ⟨⟨rfl, rfl, rfl⟩, same, rfl⟩

/-- The offer of a packet to a handler without a callback for it. -/
theorem offer_silent (c : Connection π δ γ) (receiver : Receiver) (frame : List UInt8)
    (silent : handler.lookup app.callbacks packet.ordinal = none) :
    ∃ next, offer app c receiver handler packet frame = .ok (successErrorable false, next) ∧
      Offered c [] next ∧ next.packetBuffer = c.packetBuffer ∧ next.user = c.user :=
  offer_handled (PacketHandler.handle_silent silent)

/-- The callbacks that handlers have for the packets of an ordinal. -/
structure Registers (app : Application π δ γ) (ordinal : UInt32)
    (registrations : PacketHandler → Option (Registration γ τ))
    (answer : PacketHandler → γ → List UInt8 → Bool) : Prop where
  lookup : ∀ handler : PacketHandler,
    handler.lookup app.callbacks ordinal = (registrations handler).map Registration.registered
  reads : ∀ handler registration, registrations handler = some registration → registration.ReadsBody answer

variable {registrations : PacketHandler → Option (Registration γ τ)}
  {answer : PacketHandler → γ → List UInt8 → Bool} {registration : Registration γ τ} {cap : Nat}
  {bytes : List UInt8}

theorem Registers.silent (registers : Registers app packet.ordinal registrations answer)
    (silent : registrations handler = none) : handler.lookup app.callbacks packet.ordinal = none := by
  rw [registers.lookup, silent, Option.map_none]

theorem Registers.found (registers : Registers app packet.ordinal registrations answer)
    (found : registrations handler = some registration) :
    handler.lookup app.callbacks packet.ordinal = some registration.registered := by
  rw [registers.lookup, found, Option.map_some]

/-- A callback has been called, and takes the bytes it expects if they are there. -/
structure Called (c : Connection π δ γ) (size : Nat) (invocation : Invocation) (next : Connection π δ γ) :
    Prop where
  offered : Offered c [invocation] next
  before : invocation.before = c.packetBuffer.content
  after : invocation.after = next.packetBuffer.content
  takes : ∀ (cap : Nat) (bytes : List UInt8), Represents cap bytes c.packetBuffer → size ≤ bytes.length →
    Represents cap (bytes.drop size) next.packetBuffer

theorem Called.close {size : Nat} {invocation : Invocation} (called : Called c size invocation next) :
    Called c size invocation next.close :=
  ⟨called.offered.close, called.before, called.after, called.takes⟩

/-- The bytes that a callback has taken are as many as it expects. -/
theorem Called.taken {size : Nat} {invocation : Invocation} (called : Called c size invocation next)
    (held : Represents cap bytes c.packetBuffer) (enough : size ≤ bytes.length) :
    invocation.taken = bytes.take size := by
  have remaining := called.takes cap bytes held enough
  rw [Invocation.taken, called.before, called.after, held.content, remaining.content, List.length_drop]
  congr 1
  omega

/-- No callback takes more bytes than there are. -/
theorem Called.length_taken_le {size : Nat} {invocation : Invocation}
    (called : Called c size invocation next) (held : Represents cap bytes c.packetBuffer) :
    invocation.taken.length ≤ bytes.length := by
  rw [Invocation.taken, called.before, held.content]
  exact List.length_take_le' _ _

/-- The offer of a packet to a handler with a callback for it. -/
theorem offer_called (registers : Registers app packet.ordinal registrations answer)
    (found : registrations handler = some registration) {wasHandled : Errorable Bool}
    (ran : offer app c receiver handler packet frame = .ok (wasHandled, next)) :
    ∃ invocation, Called c packet.expectedSize.toNat invocation next ∧
      ∀ (cap : Nat) (bytes : List UInt8), Represents cap bytes c.packetBuffer →
        packet.expectedSize.toNat ≤ bytes.length →
        (wasHandled.isSuccess = true ↔ Registration.Measurable bytes.length) ∧
        (wasHandled.value = true ↔ Registration.Measurable bytes.length ∧
          answer handler c.user (bytes.take packet.expectedSize.toNat) = true) := by
  have run := ran
  rw [offer_eq] at run
  obtain ⟨⟨result, user, buffer, invocations⟩, handled, -⟩ := returns_of_bind run
  have one : invocations = [⟨handler, c.packetBuffer.content, buffer.content⟩] :=
    PacketHandler.handle_called (registers.found found) handled
  obtain ⟨reached, offered, kept, sameBuffer, sameUser⟩ := offer_handled handled
  rw [ran, Except.ok.injEq, Prod.mk.injEq] at offered
  obtain ⟨rfl, rfl⟩ := offered
  have served (cap : Nat) (bytes : List UInt8) (held : Represents cap bytes c.packetBuffer)
      (enough : packet.expectedSize.toNat ≤ bytes.length) :
      (wasHandled.isSuccess = true ↔ Registration.Measurable bytes.length) ∧
      (wasHandled.value = true ↔ Registration.Measurable bytes.length ∧
        answer handler c.user (bytes.take packet.expectedSize.toNat) = true) ∧
      Represents cap (bytes.drop packet.expectedSize.toNat) buffer := by
    have answered : Returns (handler.handle app.callbacks c.user packet c.packetBuffer) _ :=
      PacketHandler.handle_registered (registers.found found)
        (registers.reads handler registration found) held enough
    rw [handled, returns_ok] at answered
    exact answered
  subst one sameBuffer
  refine ⟨_, ⟨kept, rfl, rfl, ?_⟩, ?_⟩
  · intro cap bytes held enough
    exact (served cap bytes held enough).2.2
  · intro cap bytes held enough
    exact ⟨(served cap bytes held enough).1, (served cap bytes held enough).2.1⟩

/-! ### The further handlers -/

variable {item : PacketHandler} {later items : List PacketHandler}

/-- What becomes of the packet at one of the further handlers. -/
inductive Link (app : Application π δ γ) (registrations : PacketHandler → Option (Registration γ τ))
    (answer : PacketHandler → γ → List UInt8 → Bool) (packet : PacketHolder) (frame : List UInt8)
    (item : PacketHandler) (later : List PacketHandler) (c after : Connection π δ γ) : Prop
  | silent (next : Connection π δ γ) (silent : registrations item = none) (offered : Offered c [] next)
      (sameBuffer : next.packetBuffer = c.packetBuffer) (sameUser : next.user = c.user)
      (ran : offerFurther app packet frame later next = .ok after)
  | stopped (registration : Registration γ τ) (invocation : Invocation)
      (found : registrations item = some registration)
      (called : Called c packet.expectedSize.toNat invocation after)
      (accepted : ∀ (cap : Nat) (bytes : List UInt8), Represents cap bytes c.packetBuffer →
        packet.expectedSize.toNat ≤ bytes.length → Registration.Measurable bytes.length ∧
          answer item c.user (bytes.take packet.expectedSize.toNat) = true)
  | passed (next : Connection π δ γ) (registration : Registration γ τ) (invocation : Invocation)
      (found : registrations item = some registration)
      (called : Called c packet.expectedSize.toNat invocation next)
      (ran : offerFurther app packet frame later next = .ok after)

theorem offerFurther_link (registers : Registers app packet.ordinal registrations answer)
    (ran : offerFurther app packet frame (item :: later) c = .ok after) :
    Link app registrations answer packet frame item later c after := by
  cases found : registrations item with
  | none =>
    obtain ⟨next, offered, kept, sameBuffer, sameUser⟩ :=
      offer_silent c .packetHandlers frame (registers.silent found)
    simp only [offerFurther_cons, offered, ok_bind, success_isSuccess, success_value, Bool.not_true,
      Bool.false_eq_true, if_false] at ran
    exact .silent next found kept sameBuffer sameUser ran
  | some registration =>
    rw [offerFurther_cons] at ran
    obtain ⟨⟨wasHandled, next⟩, offered, rest⟩ := returns_of_bind ran
    obtain ⟨invocation, called, answered⟩ := offer_called registers found offered
    have closed : Called c packet.expectedSize.toNat invocation
        (if !wasHandled.isSuccess then next.close else next) := by
      split
      · exact called.close
      · exact called
    by_cases value : wasHandled.value = true
    · simp only [if_pos value] at rest
      cases rest
      exact .stopped registration invocation found closed fun cap bytes held enough =>
        (answered cap bytes held enough).2.mp value
    · simp only [if_neg value] at rest
      exact .passed _ registration invocation found closed rest

/-- Of these handlers one callback is called: that of the first handler that has
one, which accepts the packet or has no other one after it. -/
def CallsOne (registrations : PacketHandler → Option (Registration γ τ))
    (answer : PacketHandler → γ → List UInt8 → Bool) (user : γ) (readableBytes : Nat) (body : List UInt8) :
    List PacketHandler → Prop
  | [] => False
  | item :: later =>
    if (registrations item).isSome then
      (Registration.Measurable readableBytes ∧ answer item user body = true) ∨
        ∀ further ∈ later, registrations further = none
    else CallsOne registrations answer user readableBytes body later

theorem offerFurther_offered (registers : Registers app packet.ordinal registrations answer)
    (ran : offerFurther app packet frame items c = .ok after) :
    ∃ invocations, Offered c invocations after := by
  induction items generalizing c with
  | nil =>
    cases ran
    exact ⟨[], rfl, rfl, (List.append_nil _).symm⟩
  | cons item later ih =>
    cases offerFurther_link registers ran with
    | silent next silent offered sameBuffer sameUser ran =>
      obtain ⟨invocations, rest⟩ := ih ran
      exact ⟨_, offered.trans rest⟩
    | stopped registration invocation found called accepted =>
      exact ⟨_, called.offered⟩
    | passed next registration invocation found called ran =>
      obtain ⟨invocations, rest⟩ := ih ran
      exact ⟨_, called.offered.trans rest⟩

/-- Where nothing was called, no handler has a callback. -/
theorem offerFurther_uncalled (registers : Registers app packet.ordinal registrations answer)
    (ran : offerFurther app packet frame items c = .ok after) (uncalled : after.invocations = c.invocations) :
    ∀ item ∈ items, registrations item = none := by
  have nothing {invocation : Invocation} {invocations : List Invocation}
      (offered : Offered c (invocation :: invocations) after) : False := by
    have calls := offered.invocations
    rw [uncalled, List.self_eq_append_right] at calls
    cases calls
  induction items generalizing c with
  | nil => simp
  | cons item later ih =>
    cases offerFurther_link registers ran with
    | silent next silent offered sameBuffer sameUser ran =>
      have kept : next.invocations = c.invocations := by
        rw [offered.invocations, List.append_nil]
      intro further member
      rcases List.mem_cons.mp member with rfl | member
      · exact silent
      · exact ih ran (uncalled.trans kept.symm) (fun rest => nothing (offered.trans rest)) further member
    | stopped registration invocation found called accepted => exact (nothing called.offered).elim
    | passed next registration invocation found called ran =>
      obtain ⟨invocations, rest⟩ := offerFurther_offered registers ran
      exact (nothing (called.offered.trans rest)).elim

/-- Where one callback was called, it is the one that the condition names. -/
theorem offerFurther_callsOne (registers : Registers app packet.ordinal registrations answer)
    (held : Represents cap bytes c.packetBuffer) (enough : packet.expectedSize.toNat ≤ bytes.length)
    (ran : offerFurther app packet frame items c = .ok after) {invocation : Invocation}
    (one : after.invocations = c.invocations ++ [invocation]) :
    CallsOne registrations answer c.user bytes.length (bytes.take packet.expectedSize.toNat) items := by
  induction items generalizing c with
  | nil =>
    cases ran
    simp at one
  | cons item later ih =>
    cases offerFurther_link registers ran with
    | silent next silent offered sameBuffer sameUser ran =>
      have kept : next.invocations = c.invocations := by
        rw [offered.invocations, List.append_nil]
      rw [CallsOne, silent, ← sameUser]
      exact ih (sameBuffer ▸ held) ran (kept ▸ one)
    | stopped registration invocation found called accepted =>
      rw [CallsOne, found]
      exact .inl (accepted cap bytes held enough)
    | passed next registration first found called ran =>
      obtain ⟨invocations, rest⟩ := offerFurther_offered registers ran
      have calls := (called.offered.trans rest).invocations
      rw [one, List.append_cancel_left_eq, List.singleton_append, List.cons_eq_cons] at calls
      have uncalled : after.invocations = next.invocations := by
        rw [rest.invocations, ← calls.2, List.append_nil]
      rw [CallsOne, found]
      exact .inr (offerFurther_uncalled registers ran uncalled)

/-- Callbacks that all take the same body take one after another. -/
theorem offerFurther_repeats (registers : Registers app packet.ordinal registrations answer)
    (held : Represents cap bytes c.packetBuffer)
    (ran : offerFurther app packet frame items c = .ok after) {body : List UInt8}
    (size : packet.expectedSize.toNat = body.length) {invocations : List Invocation}
    (calls : after.invocations = c.invocations ++ invocations)
    (alike : ∀ invocation ∈ invocations, invocation.taken = body) :
    invocations.length * body.length ≤ bytes.length ∧
      after.packetBuffer.content = bytes.drop (invocations.length * body.length) := by
  induction items generalizing c bytes invocations with
  | nil =>
    cases ran
    rw [List.self_eq_append_right] at calls
    subst calls
    simp [held.content]
  | cons item later ih =>
    have first {next : Connection π δ γ} {invocation : Invocation}
        (called : Called c packet.expectedSize.toNat invocation next)
        (same : invocation.taken = body) : packet.expectedSize.toNat ≤ bytes.length := by
      rw [size, ← same]
      exact called.length_taken_le held
    cases offerFurther_link registers ran with
    | silent next silent offered sameBuffer sameUser ran =>
      have kept : next.invocations = c.invocations := by
        rw [offered.invocations, List.append_nil]
      exact ih (sameBuffer ▸ held) ran (kept ▸ calls) alike
    | stopped registration invocation found called accepted =>
      rw [called.offered.invocations, List.append_cancel_left_eq] at calls
      subst calls
      have enough := first called (alike invocation List.mem_cons_self)
      have remaining := called.takes cap bytes held enough
      rw [size] at enough remaining
      rw [List.length_singleton, Nat.one_mul]
      exact ⟨enough, remaining.content⟩
    | passed next registration invocation found called ran =>
      obtain ⟨more, rest⟩ := offerFurther_offered registers ran
      have both := (called.offered.trans rest).invocations
      rw [calls, List.append_cancel_left_eq] at both
      subst both
      have enough := first called (alike invocation (by simp))
      have remaining := called.takes cap bytes held enough
      obtain ⟨within, content⟩ := ih remaining ran rest.invocations
        fun invocation member => alike invocation (List.mem_append_right _ member)
      rw [size] at enough
      rw [size, List.length_drop] at within
      rw [size, List.drop_drop] at content
      rw [List.length_append, List.length_singleton, Nat.add_mul, Nat.one_mul]
      exact ⟨by omega, content⟩

/-- So there were as many calls as bodies are gone. -/
theorem offerFurther_count (registers : Registers app packet.ordinal registrations answer)
    (held : Represents cap bytes c.packetBuffer)
    (ran : offerFurther app packet frame items c = .ok after) {body : List UInt8} (nonempty : body ≠ [])
    (size : packet.expectedSize.toNat = body.length) {invocations : List Invocation}
    (calls : after.invocations = c.invocations ++ invocations)
    (alike : ∀ invocation ∈ invocations, invocation.taken = body) {count : Nat}
    (gone : bytes.length = count * body.length + after.packetBuffer.content.length) :
    invocations.length = count := by
  obtain ⟨within, content⟩ := offerFurther_repeats registers held ran size calls alike
  have lengths := congrArg List.length content
  rw [List.length_drop] at lengths
  have same : invocations.length * body.length = count * body.length := by omega
  exact Nat.eq_of_mul_eq_mul_right (List.length_pos_iff.mpr nonempty) same

/-- Every callback called since has taken `body`, and `rest` is left. -/
structure Consumed (cap : Nat) (body rest : List UInt8) (c next : Connection π δ γ) : Prop where
  calls : ∃ invocations, Offered c invocations next ∧ ∀ invocation ∈ invocations, invocation.taken = body
  held : Represents cap rest next.packetBuffer

theorem Consumed.after_silent {body rest : List UInt8} (offered : Offered c [] next)
    (consumed : Consumed cap body rest next after) : Consumed cap body rest c after := by
  obtain ⟨⟨invocations, later, alike⟩, held⟩ := consumed
  exact ⟨⟨invocations, offered.trans later, alike⟩, held⟩

theorem Consumed.after_called {body rest : List UInt8} {size : Nat} {invocation : Invocation}
    (called : Called c size invocation next) (taken : invocation.taken = body)
    (consumed : Consumed cap body rest next after) : Consumed cap body rest c after := by
  obtain ⟨⟨invocations, later, alike⟩, held⟩ := consumed
  refine ⟨⟨_, called.offered.trans later, ?_⟩, held⟩
  intro invocation member
  rcases List.mem_append.mp member with first | member
  · rw [List.mem_singleton.mp first, taken]
  · exact alike invocation member

theorem Consumed.refl (body : List UInt8) (held : Represents cap bytes c.packetBuffer) :
    Consumed cap body bytes c c :=
  ⟨⟨[], ⟨rfl, rfl, (List.append_nil _).symm⟩, by simp⟩, held⟩

/-- A callback that has its body answers. -/
theorem offer_returns (registers : Registers app packet.ordinal registrations answer)
    (found : registrations handler = some registration) (held : Represents cap bytes c.packetBuffer)
    (enough : packet.expectedSize.toNat ≤ bytes.length) (receiver : Receiver) (frame : List UInt8) :
    ∃ wasHandled next, offer app c receiver handler packet frame = .ok (wasHandled, next) := by
  have answered : Returns (handler.handle app.callbacks c.user packet c.packetBuffer) _ :=
    PacketHandler.handle_registered (registers.found found) (registers.reads handler registration found)
      held enough
  obtain ⟨⟨wasHandled, user, buffer, invocations⟩, ran, -⟩ := answered
  obtain ⟨next, offered, -⟩ := offer_handled ran
  exact ⟨wasHandled, next, offered⟩

theorem offerFurther_silent (silent : handler.lookup app.callbacks packet.ordinal = none) :
    ∃ next, Offered c [] next ∧ next.packetBuffer = c.packetBuffer ∧ next.user = c.user ∧
      offerFurther app packet frame (handler :: later) c = offerFurther app packet frame later next := by
  obtain ⟨next, offered, kept, sameBuffer, sameUser⟩ := offer_silent c .packetHandlers frame silent
  refine ⟨next, kept, sameBuffer, sameUser, ?_⟩
  simp only [offerFurther_cons, offered, ok_bind, success_isSuccess, success_value, Bool.not_true,
    Bool.false_eq_true, if_false]

/-- The loop goes on after a callback exactly if that one does not accept. -/
theorem offerFurther_called (registers : Registers app packet.ordinal registrations answer)
    (found : registrations item = some registration) (held : Represents cap bytes c.packetBuffer)
    (enough : packet.expectedSize.toNat ≤ bytes.length) :
    ∃ invocation next, Called c packet.expectedSize.toNat invocation next ∧
      offerFurther app packet frame (item :: later) c =
        if Registration.Measurable bytes.length ∧
            answer item c.user (bytes.take packet.expectedSize.toNat) = true then .ok next
        else offerFurther app packet frame later next := by
  obtain ⟨wasHandled, next, offered⟩ := offer_returns registers found held enough .packetHandlers frame
  obtain ⟨invocation, called, answered⟩ := offer_called registers found offered
  refine ⟨invocation, if !wasHandled.isSuccess then next.close else next, ?_, ?_⟩
  · split
    · exact called.close
    · exact called
  · have value := (answered cap bytes held enough).2
    simp only [offerFurther_cons, offered, ok_bind, ← value, pure_is_ok]

theorem offerFurther_nothing (registers : Registers app packet.ordinal registrations answer)
    (body : List UInt8) (held : Represents cap bytes c.packetBuffer)
    (silent : ∀ item ∈ items, registrations item = none) :
    Returns (offerFurther app packet frame items c) (Consumed cap body bytes c) := by
  induction items generalizing c with
  | nil => exact (returns_ok _ _).mpr (.refl body held)
  | cons item later ih =>
    obtain ⟨next, kept, sameBuffer, -, same⟩ :=
      offerFurther_silent (registers.silent (silent item List.mem_cons_self))
    rw [same]
    exact (ih (sameBuffer ▸ held) fun further member => silent further (List.mem_cons_of_mem _ member)).mono
      fun after consumed => consumed.after_silent kept

/-- One callback takes the body, and the rest is left. -/
theorem offerFurther_once (registers : Registers app packet.ordinal registrations answer)
    (held : Represents cap bytes c.packetBuffer) (enough : packet.expectedSize.toNat ≤ bytes.length)
    (one : CallsOne registrations answer c.user bytes.length (bytes.take packet.expectedSize.toNat) items) :
    Returns (offerFurther app packet frame items c) (Consumed cap (bytes.take packet.expectedSize.toNat)
      (bytes.drop packet.expectedSize.toNat) c) := by
  induction items generalizing c with
  | nil => exact one.elim
  | cons item later ih =>
    cases found : registrations item with
    | none =>
      obtain ⟨next, kept, sameBuffer, sameUser, same⟩ := offerFurther_silent (registers.silent found)
      rw [CallsOne, found, ← sameUser] at one
      rw [same]
      exact (ih (sameBuffer ▸ held) one).mono fun after consumed => consumed.after_silent kept
    | some registration =>
      obtain ⟨invocation, next, called, same⟩ := offerFurther_called registers found held enough
      rw [CallsOne, found] at one
      have taken := called.taken held enough
      have remaining := called.takes cap bytes held enough
      rw [same]
      by_cases accepted : Registration.Measurable bytes.length ∧
          answer item c.user (bytes.take packet.expectedSize.toNat) = true
      · rw [if_pos accepted]
        exact (returns_ok _ _).mpr (.after_called called taken (.refl _ remaining))
      · rw [if_neg accepted]
        exact (offerFurther_nothing registers _ remaining (one.resolve_left accepted)).mono
          fun after consumed => consumed.after_called called taken

/-- An empty body can be taken any number of times. -/
theorem offerFurther_empty (registers : Registers app packet.ordinal registrations answer)
    (held : Represents cap bytes c.packetBuffer) (empty : packet.expectedSize.toNat = 0) :
    Returns (offerFurther app packet frame items c) (Consumed cap [] bytes c) := by
  have enough : packet.expectedSize.toNat ≤ bytes.length := by omega
  induction items generalizing c with
  | nil => exact (returns_ok _ _).mpr (.refl [] held)
  | cons item later ih =>
    cases found : registrations item with
    | none =>
      obtain ⟨next, kept, sameBuffer, -, same⟩ := offerFurther_silent (registers.silent found)
      rw [same]
      exact (ih (sameBuffer ▸ held)).mono fun after consumed => consumed.after_silent kept
    | some registration =>
      obtain ⟨invocation, next, called, same⟩ := offerFurther_called registers found held enough
      have taken := called.taken held enough
      have remaining := called.takes cap bytes held enough
      rw [empty, List.take_zero] at taken
      rw [empty, List.drop_zero] at remaining
      rw [same]
      split
      · exact (returns_ok _ _).mpr (.after_called called taken (.refl _ remaining))
      · exact (ih remaining).mono fun after consumed => consumed.after_called called taken

/-! ### All handlers -/

/-- Of all handlers one callback is called. The main handler's ends the call also
where it can not measure the packet. -/
def CallsOneInAll (registrations : PacketHandler → Option (Registration γ τ))
    (answer : PacketHandler → γ → List UInt8 → Bool) (user : γ) (readableBytes : Nat) (body : List UInt8)
    (main : PacketHandler) (further : List PacketHandler) : Prop :=
  if (registrations main).isSome then
    (Registration.Measurable readableBytes → answer main user body = true) ∨
      ∀ item ∈ further, registrations item = none
  else CallsOne registrations answer user readableBytes body further

variable {result : Errorable PacketHolder}

theorem dispatch_silent (success : result.isSuccess = true)
    (silent : c.mainPacketHandler.lookup app.callbacks result.value.ordinal = none) :
    ∃ next, Offered c [] next ∧ next.packetBuffer = c.packetBuffer ∧ next.user = c.user ∧
      dispatch app c result frame = offerFurther app result.value frame c.packetHandlers next := by
  obtain ⟨next, offered, kept, sameBuffer, sameUser⟩ := offer_silent c .mainPacketHandler frame silent
  refine ⟨next, kept, sameBuffer, sameUser, ?_⟩
  simp only [dispatch_eq, success, offered, ok_bind, success_isSuccess, success_value, Bool.not_true,
    Bool.not_false, Bool.false_eq_true, if_false, if_true, kept.further]

/-- The further handlers are asked after the main handler's callback exactly if
that one could measure the packet and did not accept it. -/
theorem dispatch_called (registers : Registers app result.value.ordinal registrations answer)
    (success : result.isSuccess = true) (found : registrations c.mainPacketHandler = some registration)
    (held : Represents cap bytes c.packetBuffer)
    (enough : result.value.expectedSize.toNat ≤ bytes.length) :
    ∃ invocation next, Called c result.value.expectedSize.toNat invocation next ∧
      dispatch app c result frame =
        if Registration.Measurable bytes.length →
            answer c.mainPacketHandler c.user (bytes.take result.value.expectedSize.toNat) = true then .ok next
        else offerFurther app result.value frame c.packetHandlers next := by
  obtain ⟨wasHandled, next, offered⟩ := offer_returns registers found held enough .mainPacketHandler frame
  obtain ⟨invocation, called, answered⟩ := offer_called registers found offered
  obtain ⟨accepts, value⟩ := answered cap bytes held enough
  simp only [dispatch_eq, success, offered, ok_bind, if_true]
  by_cases measurable : Registration.Measurable bytes.length
  · have accepted := accepts.mpr measurable
    refine ⟨invocation, next, called, ?_⟩
    simp only [measurable, true_and] at value
    simp only [accepted, Bool.not_true, Bool.false_eq_true, if_false, measurable, true_implies, ← value,
      called.offered.further]
    cases wasHandled.value with
    | true => rfl
    | false => rfl
  · have refused : wasHandled.isSuccess = false := by
      rw [← Bool.not_eq_true]
      exact mt accepts.mp measurable
    refine ⟨invocation, next.close, called.close, ?_⟩
    simp only [refused, Bool.not_false, if_true, measurable, false_implies, pure_is_ok]

theorem dispatch_once (registers : Registers app result.value.ordinal registrations answer)
    (success : result.isSuccess = true) (held : Represents cap bytes c.packetBuffer)
    (enough : result.value.expectedSize.toNat ≤ bytes.length)
    (one : CallsOneInAll registrations answer c.user bytes.length
      (bytes.take result.value.expectedSize.toNat) c.mainPacketHandler c.packetHandlers) :
    Returns (dispatch app c result frame) (Consumed cap (bytes.take result.value.expectedSize.toNat)
      (bytes.drop result.value.expectedSize.toNat) c) := by
  cases found : registrations c.mainPacketHandler with
  | none =>
    obtain ⟨next, kept, sameBuffer, sameUser, same⟩ := dispatch_silent success (registers.silent found)
    rw [CallsOneInAll, found, ← sameUser] at one
    rw [same]
    exact (offerFurther_once registers (sameBuffer ▸ held) enough one).mono
      fun after consumed => consumed.after_silent kept
  | some registration =>
    obtain ⟨invocation, next, called, same⟩ := dispatch_called registers success found held enough
    rw [CallsOneInAll, found] at one
    have taken := called.taken held enough
    have remaining := called.takes cap bytes held enough
    rw [same]
    by_cases ends : Registration.Measurable bytes.length →
        answer c.mainPacketHandler c.user (bytes.take result.value.expectedSize.toNat) = true
    · rw [if_pos ends]
      exact (returns_ok _ _).mpr (.after_called called taken (.refl _ remaining))
    · rw [if_neg ends]
      exact (offerFurther_nothing registers _ remaining (one.resolve_left ends)).mono
        fun after consumed => consumed.after_called called taken

theorem dispatch_empty (registers : Registers app result.value.ordinal registrations answer)
    (success : result.isSuccess = true) (held : Represents cap bytes c.packetBuffer)
    (empty : result.value.expectedSize.toNat = 0) :
    Returns (dispatch app c result frame) (Consumed cap [] bytes c) := by
  have enough : result.value.expectedSize.toNat ≤ bytes.length := by omega
  cases found : registrations c.mainPacketHandler with
  | none =>
    obtain ⟨next, kept, sameBuffer, -, same⟩ := dispatch_silent success (registers.silent found)
    rw [same]
    exact (offerFurther_empty registers (sameBuffer ▸ held) empty).mono
      fun after consumed => consumed.after_silent kept
  | some registration =>
    obtain ⟨invocation, next, called, same⟩ := dispatch_called registers success found held enough
    have taken := called.taken held enough
    have remaining := called.takes cap bytes held enough
    rw [empty, List.take_zero] at taken
    rw [empty, List.drop_zero] at remaining
    rw [same]
    split
    · exact (returns_ok _ _).mpr (.after_called called taken (.refl _ remaining))
    · exact (offerFurther_empty registers remaining empty).mono
        fun after consumed => consumed.after_called called taken

/-- Where a body with bytes was taken once, one callback was called. -/
theorem dispatch_callsOne (registers : Registers app result.value.ordinal registrations answer)
    (success : result.isSuccess = true) {body rest : List UInt8}
    (held : Represents cap (body ++ rest) c.packetBuffer)
    (size : result.value.expectedSize.toNat = body.length) (nonempty : body ≠ [])
    (ran : dispatch app c result frame = .ok after) {invocations : List Invocation}
    (calls : after.invocations = c.invocations ++ invocations)
    (alike : ∀ invocation ∈ invocations, invocation.taken = body) (left : after.packetBuffer.content = rest) :
    CallsOneInAll registrations answer c.user (body ++ rest).length body c.mainPacketHandler
      c.packetHandlers := by
  have enough : result.value.expectedSize.toNat ≤ (body ++ rest).length := by
    rw [size, List.length_append]
    omega
  have whole : (body ++ rest).take result.value.expectedSize.toNat = body := by
    rw [size, List.take_left]
  cases found : registrations c.mainPacketHandler with
  | none =>
    obtain ⟨next, kept, sameBuffer, sameUser, same⟩ := dispatch_silent success (registers.silent found)
    rw [same] at ran
    have uncalled : next.invocations = c.invocations := by
      rw [kept.invocations, List.append_nil]
    rw [← uncalled] at calls
    have held := sameBuffer ▸ held
    have once : invocations.length = 1 := by
      apply offerFurther_count registers held ran nonempty size calls alike
      rw [left, List.length_append, Nat.one_mul]
    obtain ⟨invocation, rfl⟩ := List.length_eq_one_iff.mp once
    have one := offerFurther_callsOne registers held enough ran calls
    rw [CallsOneInAll, found, ← sameUser]
    rw [whole] at one
    exact one
  | some registration =>
    obtain ⟨invocation, next, called, same⟩ := dispatch_called registers success found held enough
    rw [same] at ran
    rw [CallsOneInAll, found]
    rw [whole] at ran
    by_cases ends : Registration.Measurable (body ++ rest).length →
        answer c.mainPacketHandler c.user body = true
    · exact .inl ends
    · rw [if_neg ends] at ran
      have remaining := called.takes cap _ held enough
      rw [size, List.drop_left] at remaining
      obtain ⟨more, offered⟩ := offerFurther_offered registers ran
      have both := (called.offered.trans offered).invocations
      rw [calls, List.append_cancel_left_eq] at both
      subst both
      have never : more.length = 0 := by
        apply offerFurther_count registers remaining ran nonempty size offered.invocations
          fun invocation member => alike invocation (List.mem_append_right _ member)
        rw [left, Nat.zero_mul, Nat.zero_add]
      have none := List.length_eq_zero_iff.mp never
      subst none
      have uncalled : after.invocations = next.invocations := by
        rw [offered.invocations, List.append_nil]
      exact .inr (offerFurther_uncalled registers ran uncalled)

/-! ### A packet received -/

/-- `ReadPacket` reads the id of the packet, and announces the rest of the frame. -/
def ReadsId (readPacket : ReadPacket δ) (id : List UInt8) (ordinal : UInt32) : Prop :=
  ∀ (cap : Nat) (body rest : List UInt8) (input : ByteBufferImpl) (decoder : δ),
    Represents cap (id ++ body ++ rest) input → (id ++ body).length < 2 ^ 32 →
    Returns (readPacket decoder input (.ofNat (id ++ body).length)) fun read =>
      read.1.isSuccess = true ∧ read.1.value.ordinal = ordinal ∧
      read.1.value.expectedSize.toNat = body.length ∧ Represents cap (body ++ rest) read.2.2

/-- Every callback called has taken the body, and the packet buffer is at what
follows it, between two frames. -/
structure BodyTakenOnce (body rest : List UInt8) (c final : Connection π δ γ) : Prop where
  calls : ∃ invocations, final.invocations = c.invocations ++ invocations ∧
    ∀ invocation ∈ invocations, invocation.taken = body
  left : final.packetBuffer.content = rest
  between : final.bytePacketPipe.nextReadFrameLength = 0

/-- A packet on its way from the packet pipe to the handlers of a connection. -/
structure Arrived (cap : Nat) (ordinal : UInt32) (body rest : List UInt8) (c : Connection π δ γ)
    (result : Errorable PacketHolder) (reached : Connection π δ γ) : Prop where
  success : result.isSuccess = true
  ordinal : result.value.ordinal = ordinal
  size : result.value.expectedSize.toNat = body.length
  held : Represents cap (body ++ rest) reached.packetBuffer
  main : reached.mainPacketHandler = c.mainPacketHandler
  further : reached.packetHandlers = c.packetHandlers
  user : reached.user = c.user
  invocations : reached.invocations = c.invocations
  between : reached.bytePacketPipe.nextReadFrameLength = 0

variable {id body rest page : List UInt8} {ordinal : UInt32}

theorem handleNewBytes_arrived (reads : ReadsId app.readPacket id ordinal) (present : id ≠ [])
    (received : receive app c page = .ok next)
    (there : FramedBytePacketPipe.AtFrame cap next.bytePacketPipe next.packetBuffer (id ++ body) rest) :
    ∃ result frame reached, Arrived cap ordinal body rest c result reached ∧
      handleNewBytes app c page = dispatch app reached result frame := by
  have nonempty : id ++ body ≠ [] := by simp [present]
  obtain ⟨bound, input, held, answered⟩ := there.read app.readPacket nonempty
  obtain ⟨⟨result, decoder, buffer⟩, read, success, sameOrdinal, size, remaining⟩ :=
    reads cap body rest input next.bytePacketPipe.decoder held bound
  obtain ⟨readerBuffer, pipeline, afterwards⟩ := receive_buffers received
  obtain ⟨readerBuffer', pipeline', replaced⟩ := setPacketBuffer_buffers next buffer
  have same := packetBuffer_setPacketBuffer next buffer
  simp only [read, ok_bind, pure_is_ok] at answered
  refine ⟨result, id ++ body, { next.setPacketBuffer buffer with
    bytePacketPipe := { next.bytePacketPipe with nextReadFrameLength := 0, decoder := decoder } }, ?_, ?_⟩
  · rw [replaced] at same ⊢
    subst afterwards
    exact {
      success := success
      ordinal := sameOrdinal
      size := size
      held := same.symm ▸ remaining
      main := rfl
      further := rfl
      user := rfl
      invocations := rfl
      between := rfl }
  · simp only [handleNewBytes_eq, received, ok_bind, answered]

/-- Whatever handlers a connection has: when a call of `HandleNewBytes` returns,
every callback called has taken the body of the packet, and the body is gone once,
exactly if the body is empty or one callback was to be called. -/
theorem body_taken_once_iff {registrations : PacketHandler → Option (Registration γ τ)}
    {answer : PacketHandler → γ → List UInt8 → Bool}
    (reads : ReadsId app.readPacket id ordinal) (present : id ≠ [])
    (registers : Registers app ordinal registrations answer) (received : receive app c page = .ok next)
    (there : FramedBytePacketPipe.AtFrame cap next.bytePacketPipe next.packetBuffer (id ++ body) rest) :
    Returns (handleNewBytes app c page) (BodyTakenOnce body rest c) ↔
      body = [] ∨ CallsOneInAll registrations answer c.user (body.length + rest.length) body
        c.mainPacketHandler c.packetHandlers := by
  obtain ⟨result, frame, reached, arrived, same⟩ := handleNewBytes_arrived reads present received there
  have registers : Registers app result.value.ordinal registrations answer := arrived.ordinal ▸ registers
  have finished {final : Connection π δ γ} (consumed : Consumed cap body rest reached final) :
      BodyTakenOnce body rest c final := by
    obtain ⟨⟨invocations, offered, alike⟩, held⟩ := consumed
    exact {
      calls := ⟨invocations, arrived.invocations ▸ offered.invocations, alike⟩
      left := held.content
      between := by rw [offered.pipe, arrived.between] }
  rw [same, ← arrived.main, ← arrived.further, ← arrived.user, ← List.length_append]
  constructor
  · rintro ⟨final, ran, ⟨invocations, calls, alike⟩, left, -⟩
    by_cases empty : body = []
    · exact .inl empty
    · exact .inr (dispatch_callsOne registers arrived.success arrived.held arrived.size empty ran
        (arrived.invocations ▸ calls) alike left)
  · rintro (empty | one)
    · subst empty
      exact (dispatch_empty registers arrived.success arrived.held arrived.size).mono
        fun final consumed => finished consumed
    · have enough : result.value.expectedSize.toNat ≤ (body ++ rest).length := by
        rw [arrived.size, List.length_append]
        omega
      have whole : (body ++ rest).take result.value.expectedSize.toNat = body := by
        rw [arrived.size, List.take_left]
      have left : (body ++ rest).drop result.value.expectedSize.toNat = rest := by
        rw [arrived.size, List.drop_left]
      have once : Returns (dispatch app reached result frame) _ :=
        dispatch_once registers arrived.success arrived.held enough (whole.symm ▸ one)
      rw [whole, left] at once
      exact once.mono fun final consumed => finished consumed

/-- A packet class whose `Instantiate` passes over the body, and a callback that
accepts with the handlers of ordinal 1. -/
private def skimmed : Registration Unit Unit where
  instantiate := fun holder input => do
    let input ← input.skim holder.expectedSize.toNat
    pure (successErrorable (), input)
  callback := fun handler user _ => pure (successErrorable (decide (handler.ordinal = 1)), user)

private theorem skimmed_readsBody :
    skimmed.ReadsBody fun handler _ _ => decide (handler.ordinal = 1) := by
  intro cap bytes input holder handler user held enough
  obtain ⟨after, ran, remaining⟩ := skim_represents held enough
  simp only [skimmed, ran, ok_bind, pure_is_ok, returns_ok]
  exact ⟨rfl, remaining, rfl, rfl⟩

/-- Packets with an id of one byte, and callbacks for the packets of ordinal 0
with the handlers of ordinals 1 and 2. -/
private def skimmingBodies : Application Unit Unit Unit where
  readBytePipe := fun pipe input => pure (successErrorable 0, pipe, input)
  readPacket := fun decoder input frameSize => do
    let (id, input) ← input.readByteUnsafe
    pure (successErrorable ⟨id.toUInt32, 0, frameSize - 1⟩, decoder, input)
  callbacks := [[none], [some skimmed.registered], [some skimmed.registered]]

private def skimmedBy (handler : PacketHandler) : Option (Registration Unit Unit) :=
  if handler.ordinal = 1 ∨ handler.ordinal = 2 then some skimmed else none

private theorem skimmingBodies_readsId : ReadsId skimmingBodies.readPacket [0] 0 := by
  intro cap body rest input decoder held bound
  obtain ⟨⟨id, after⟩, ran, same, remaining⟩ := readByteUnsafe_represents held
  simp only at same
  subst same
  simp only [skimmingBodies, ran, ok_bind, pure_is_ok, returns_ok]
  refine ⟨rfl, rfl, ?_, remaining⟩
  have length : ([0] ++ body).length = body.length + 1 := by simp
  have shorter : UInt32.ofNat (body.length + 1) - 1 = UInt32.ofNat body.length := by
    rw [UInt32.ofNat_add]
    exact UInt32.add_sub_cancel _ _
  rw [length] at bound ⊢
  simp only [success_value, shorter]
  exact UInt32.toNat_ofNat_of_lt' (Nat.lt_of_succ_lt bound)

private theorem skimmingBodies_registers :
    Registers skimmingBodies 0 skimmedBy fun handler _ _ => decide (handler.ordinal = 1) := by
  constructor
  · rintro ⟨ordinal⟩
    by_cases accepting : ordinal = 1
    · subst accepting
      rfl
    · by_cases declining : ordinal = 2
      · subst declining
        rfl
      · have unregistered : skimmedBy ⟨ordinal⟩ = none := if_neg (by simp [accepting, declining])
        rw [unregistered, Option.map_none, PacketHandler.lookup]
        rw [← UInt32.toNat_inj] at accepting declining
        by_cases outside : ordinal.toNat ≥ 3
        · exact if_pos outside
        · have zero : ordinal.toNat = 0 := by
            simp at accepting declining
            omega
          simp [zero, skimmingBodies]
  · intro handler registration found
    unfold skimmedBy at found
    split at found
    · cases found
      exact skimmed_readsBody
    · cases found

/-- A connection without byte pipes, which its first page brings to a frame. -/
private theorem fresh_atFrame (app : Application Unit Unit Unit) (main : PacketHandler)
    (further : List PacketHandler) (frame : Framing.Frame) (allowed : Allowed 10 frame) (rest : List UInt8) :
    ∃ next, receive app (new (fun _ _ => 0) 2 [] { maxReadSize := 10, decoder := () } main further ())
        (frame.bytes ++ rest) = .ok next ∧
      FramedBytePacketPipe.AtFrame 2 next.bytePacketPipe next.packetBuffer frame.body rest := by
  have empty : Represents 2 [] (ByteBufferImpl.new (fun _ _ => 0) 2) := represents_new _ (by decide)
  obtain ⟨buffer, wrote, filled⟩ := writeBytes_represents empty (frame.bytes ++ rest)
  have plain : Plain 10 main further
      (new (fun _ _ => 0) 2 ([] : List (ByteBytePipe Unit)) { maxReadSize := 10, decoder := () } main
        further ()) :=
    ⟨rfl, rfl, rfl, rfl, rfl⟩
  exact ⟨_, plain.receive_page wrote, .fresh frame allowed rfl rfl filled⟩

/-- The first handler with a callback accepts the packet; the last one is not asked. -/
theorem body_taken_once_by_accepting_handler :
    Returns (handleNewBytes skimmingBodies
        (new (fun _ _ => 0) 2 [] { maxReadSize := 10, decoder := () } ⟨0⟩ [⟨5⟩, ⟨1⟩, ⟨2⟩] ())
        [3, 0, 7, 8, 2, 0, 9])
      (BodyTakenOnce [7, 8] [2, 0, 9]
        (new (fun _ _ => 0) 2 [] { maxReadSize := 10, decoder := () } ⟨0⟩ [⟨5⟩, ⟨1⟩, ⟨2⟩] ())) := by
  obtain ⟨next, received, there⟩ := fresh_atFrame skimmingBodies ⟨0⟩ [⟨5⟩, ⟨1⟩, ⟨2⟩]
    ⟨[3], [0, 7, 8], (by decide : (3 : UInt8).toNat < 128), rfl⟩ (by simp [Allowed]) [2, 0, 9]
  have there : FramedBytePacketPipe.AtFrame 2 next.bytePacketPipe next.packetBuffer ([0] ++ [7, 8])
    [2, 0, 9] := there
  refine (body_taken_once_iff skimmingBodies_readsId (by simp) skimmingBodies_registers received
    there).mpr (.inr ?_)
  simp [CallsOneInAll, CallsOne, new, skimmedBy, Registration.Measurable]

/-- A packet that no handler has a callback for stays in the buffer. -/
theorem unhandled_body_left_behind :
    ¬ ∀ (π δ γ τ : Type) (app : Application π δ γ) (c next : Connection π δ γ) (cap : Nat)
        (id body rest page : List UInt8) (ordinal : UInt32)
        (registrations : PacketHandler → Option (Registration γ τ))
        (answer : PacketHandler → γ → List UInt8 → Bool),
      ReadsId app.readPacket id ordinal → id ≠ [] → Registers app ordinal registrations answer →
      receive app c page = .ok next →
      FramedBytePacketPipe.AtFrame cap next.bytePacketPipe next.packetBuffer (id ++ body) rest →
      Returns (handleNewBytes app c page) (BodyTakenOnce body rest c) := by
  intro always
  obtain ⟨next, received, there⟩ := fresh_atFrame skimmingBodies ⟨0⟩ []
    ⟨[2], [0, 7], (by decide : (2 : UInt8).toNat < 128), rfl⟩ (by simp [Allowed]) []
  have there : FramedBytePacketPipe.AtFrame 2 next.bytePacketPipe next.packetBuffer ([0] ++ [7]) [] := there
  obtain ⟨final, ran, ⟨invocations, calls, alike⟩, left, -⟩ := always Unit Unit Unit Unit _ _ next 2 _ _ _ _
    _ _ _ skimmingBodies_readsId (by simp) skimmingBodies_registers received there
  obtain ⟨result, frame, reached, arrived, same⟩ :=
    handleNewBytes_arrived skimmingBodies_readsId (by simp) received there
  have one := dispatch_callsOne (arrived.ordinal ▸ skimmingBodies_registers) arrived.success arrived.held
    arrived.size (by simp) (same ▸ ran) (arrived.invocations ▸ calls) alike left
  rw [arrived.main, arrived.further] at one
  simp [CallsOneInAll, CallsOne, new, skimmedBy] at one

end Connection

end ShipNet
