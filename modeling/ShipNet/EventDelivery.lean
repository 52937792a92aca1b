import ShipNet.EpollEventLoop
import ShipNet.PacketDelivery

/-! When the loops of `EpollEventLoop::StartLoop` do their work. The loop that
reads one connection ends exactly if the peer does not half-close it and no call
of `HandleNewBytes` closes it. The loop over the events reaches every connection
exactly if none but the last one makes it stop. -/
namespace ShipNet.EpollEventLoop
open Fallible

variable {κ : Type} {network : ConnectionClass κ}

def Closed (network : ConnectionClass κ) (connection : κ) : Prop :=
  (network.readWriteCloser connection).closed = true

/-- `HandleNewBytes` returns, and does not open again what was closed. -/
def Serves (network : ConnectionClass κ) (inv : κ → Prop) (pages : List (List UInt8)) : Prop :=
  ∀ connection page, inv connection → page = [] ∨ page ∈ pages →
    Returns (network.handleNewBytes connection page) fun next =>
      inv next ∧ (Closed network connection → Closed network next)

/-- No call of `HandleNewBytes` on these reads closes the connection. -/
def StaysOpen (network : ConnectionClass κ) (connection : κ) : List (List UInt8) → Prop
  | [] => ¬ Closed network connection
  | page :: later => ¬ Closed network connection ∧
    ∀ next, network.handleNewBytes connection page = .ok next → StaysOpen network next later

theorem Serves.mono {inv : κ → Prop} {pages fewer : List (List UInt8)} (serves : Serves network inv pages)
    (among : ∀ page ∈ fewer, page ∈ pages) : Serves network inv fewer :=
  fun connection page held known => serves connection page held (known.imp_right (among page))

/-! ### Rounds -/

theorem Socket.read_none {socket : Socket} (drained : socket.pending = []) :
    socket.read = (socket.tail.answer, socket) := by
  unfold Socket.read
  split
  · rfl
  · simp_all

theorem Socket.read_some {socket : Socket} {page : List UInt8} {later : List (List UInt8)}
    (pending : socket.pending = page :: later) :
    ∃ rest : Socket, socket.read = (.received page, rest) ∧ rest.pending = later ∧
      rest.tail = socket.tail := by
  unfold Socket.read
  split
  · simp_all
  · next first others same =>
    rw [pending] at same
    cases same
    exact ⟨_, rfl, rfl, rfl⟩

variable {reading : Reading κ} {page : List UInt8} {later : List (List UInt8)} {next : κ}

/-- Once closed, a connection is read without end. -/
theorem readRound_closed (closed : Closed network reading.connection)
    (handled : network.handleNewBytes reading.connection [] = .ok next) :
    readRound network reading = .ok (.again { reading with connection := next }) := by
  have closed : (network.readWriteCloser reading.connection).closed = true := closed
  simp only [readRound, UnixReadWriteCloser.read, closed, Bool.not_true, Bool.false_eq_true, if_false,
    success_typeOrdinal, if_true, handled, ok_bind, pure_is_ok]

theorem readRound_page (opened : ¬ Closed network reading.connection)
    (pending : reading.socket.pending = page :: later)
    (handled : network.handleNewBytes reading.connection page = .ok next) :
    ∃ socket : Socket, socket.pending = later ∧ socket.tail = reading.socket.tail ∧
      readRound network reading = .ok (.again ⟨next, socket, reading.errno⟩) := by
  have opened : (network.readWriteCloser reading.connection).closed = false := by
    simpa [Closed] using opened
  obtain ⟨rest, answered, remaining, sameTail⟩ := Socket.read_some pending
  refine ⟨rest, remaining, sameTail, ?_⟩
  simp only [readRound, UnixReadWriteCloser.read, opened, Bool.not_false, if_true, answered,
    success_typeOrdinal, handled, ok_bind, pure_is_ok]

/-- The end of the file is read again and again. -/
theorem readRound_endOfFile (opened : ¬ Closed network reading.connection)
    (drained : reading.socket.pending = []) (ended : reading.socket.tail = .endOfFile)
    (handled : network.handleNewBytes reading.connection [] = .ok next) :
    readRound network reading = .ok (.again { reading with connection := next }) := by
  have opened : (network.readWriteCloser reading.connection).closed = false := by
    simpa [Closed] using opened
  simp only [readRound, UnixReadWriteCloser.read, opened, Bool.not_false, if_true,
    Socket.read_none drained, ended, Tail.answer, success_typeOrdinal, handled, ok_bind, pure_is_ok]

/-- What the loop makes of a connection whose socket has no more bytes. -/
def Tail.fate : Tail → Fate
  | .wouldBlock => .drained
  | .failing _ _ => .deleted
  | .endOfFile => .untouched

theorem readRound_last (opened : ¬ Closed network reading.connection)
    (drained : reading.socket.pending = []) (more : reading.socket.tail ≠ .endOfFile) :
    ∃ after, readRound network reading = .ok (.leave (reading.socket.tail.fate, after)) := by
  have opened : (network.readWriteCloser reading.connection).closed = false := by
    simpa [Closed] using opened
  cases tail : reading.socket.tail with
  | wouldBlock =>
    simp [readRound, UnixReadWriteCloser.read, opened, Socket.read_none drained, tail, Tail.answer, Tail.fate,
      errnoErrorable]
  | failing errno fatal =>
    simp [readRound, UnixReadWriteCloser.read, opened, Socket.read_none drained, tail, Tail.answer, Tail.fate,
      errnoErrorable, fatal]
  | endOfFile => exact absurd tail more

/-! ### The loop over one connection -/

variable {inv : κ → Prop}

/-- While it stays open a connection is read to the end, and no further. -/
theorem readLoop_returns (serves : Serves network inv reading.socket.pending)
    (holds : inv reading.connection)
    (opened : StaysOpen network reading.connection reading.socket.pending)
    (more : reading.socket.tail ≠ .endOfFile) :
    ∃ after, readLoop network reading = .ok (reading.socket.tail.fate, after) := by
  unfold readLoop
  generalize pending : reading.socket.pending = pages at serves opened
  induction pages generalizing reading with
  | nil =>
    obtain ⟨after, last⟩ := readRound_last opened pending more
    refine ⟨after, ?_⟩
    simp only [List.length_nil, loop, last, ok_bind, pure_is_ok]
  | cons page later ih =>
    obtain ⟨open_, stays⟩ := opened
    obtain ⟨next, handled, held, -⟩ := serves reading.connection page holds (.inr List.mem_cons_self)
    obtain ⟨socket, remaining, sameTail, stepped⟩ := readRound_page open_ pending handled
    have servesLater := serves.mono fun page' member => List.mem_cons_of_mem page member
    obtain ⟨after, ended⟩ :=
      @ih ⟨next, socket, reading.errno⟩ held (sameTail ▸ more) remaining servesLater (stays next handled)
    refine ⟨after, ?_⟩
    rw [List.length_cons, loop_again stepped, ended, sameTail]

/-- A closed connection is read forever. -/
theorem closed_not_ends (serves : Serves network inv []) (holds : inv reading.connection)
    (closed : Closed network reading.connection) : ¬ Ends .endless (readRound network) reading := by
  apply not_ends fun reading => inv reading.connection ∧ Closed network reading.connection
  · rintro reading ⟨held, closed⟩
    obtain ⟨next, handled, heldNext, stays⟩ := serves reading.connection [] held (.inl rfl)
    exact ⟨_, readRound_closed closed handled, heldNext, stays closed⟩
  · exact ⟨holds, closed⟩

/-- A connection whose peer sends no more is read forever. -/
theorem endOfFile_not_ends (serves : Serves network inv []) (holds : inv reading.connection)
    (drained : reading.socket.pending = []) (ended : reading.socket.tail = .endOfFile) :
    ¬ Ends .endless (readRound network) reading := by
  apply not_ends fun reading => inv reading.connection ∧ reading.socket.pending = [] ∧
    reading.socket.tail = .endOfFile
  · rintro reading ⟨held, drained, ended⟩
    obtain ⟨next, handled, heldNext, -⟩ := serves reading.connection [] held (.inl rfl)
    refine ⟨{ reading with connection := next }, ?_, heldNext, drained, ended⟩
    by_cases closed : Closed network reading.connection
    · exact readRound_closed closed handled
    · exact readRound_endOfFile closed drained ended handled
  · exact ⟨holds, drained, ended⟩

/-- The loop that reads a connection ends exactly if the socket does not come to
the end of the file and no call of `HandleNewBytes` closes the connection. -/
theorem read_loop_ends_iff (serves : Serves network inv reading.socket.pending)
    (holds : inv reading.connection) :
    Ends .endless (readRound network) reading ↔
      reading.socket.tail ≠ .endOfFile ∧
        StaysOpen network reading.connection reading.socket.pending := by
  constructor
  · intro ends
    generalize pending : reading.socket.pending = pages at serves
    have idle : Serves network inv [] := serves.mono (by simp)
    induction pages generalizing reading with
    | nil =>
      refine ⟨?_, ?_⟩
      · intro ended
        exact endOfFile_not_ends idle holds pending ended ends
      · intro closed
        exact closed_not_ends idle holds closed ends
    | cons page later ih =>
      have opened : ¬ Closed network reading.connection := fun closed =>
        closed_not_ends idle holds closed ends
      obtain ⟨next, handled, held, -⟩ := serves reading.connection page holds (.inr List.mem_cons_self)
      obtain ⟨socket, remaining, sameTail, stepped⟩ := readRound_page opened pending handled
      have servesLater := serves.mono fun page' member => List.mem_cons_of_mem page member
      obtain ⟨more, stays⟩ := @ih ⟨next, socket, reading.errno⟩ held
        ((ends_again_iff stepped).mp ends) remaining servesLater
      refine ⟨sameTail ▸ more, opened, ?_⟩
      intro next' handled'
      rw [handled] at handled'
      cases handled'
      exact stays
  · rintro ⟨more, opened⟩
    obtain ⟨after, ended⟩ := readLoop_returns serves holds opened more
    exact ⟨_, _, ended⟩

/-! ### The loop over the events -/

/-- An event whose connection is read to the end: its socket comes to `EAGAIN` or
to an error, and no call of `HandleNewBytes` closes it. -/
structure Readable (network : ConnectionClass κ) (inv : κ → Prop) (event : Event κ) : Prop where
  serves : Serves network inv event.socket.pending
  holds : inv event.connection
  opened : StaysOpen network event.connection event.socket.pending
  more : event.socket.tail ≠ .endOfFile

/-- The event does not make the loop stop. -/
def Passes (disconnected : Bool) (event : Event κ) : Prop :=
  event.rdhup = true ∨ (disconnected = false ∧ event.socket.tail = .wouldBlock)

variable {event : Event κ} {events : List (Event κ)} {disconnected : Bool} {errno : Nat}

theorem Readable.readLoop (readable : Readable network inv event) (errno : Nat) :
    ∃ after, readLoop network ⟨event.connection, event.socket, errno⟩ =
      .ok (event.socket.tail.fate, after) :=
  readLoop_returns readable.serves readable.holds readable.opened readable.more

theorem forEvents_passes (readable : Readable network inv event) (passes : Passes disconnected event) :
    ∃ fate errno', fate ≠ .untouched ∧ forEvents network disconnected errno (event :: events) =
      (do pure (fate :: (← forEvents network disconnected errno' events))) := by
  cases rdhup : event.rdhup with
  | true =>
    refine ⟨.deleted, errno, by simp, ?_⟩
    simp only [forEvents, rdhup, if_true]
  | false =>
    obtain ⟨quiet, wouldBlock⟩ := passes.resolve_left (by simp [rdhup])
    obtain ⟨after, ended⟩ := readable.readLoop errno
    have fate : event.socket.tail.fate = .drained := by rw [wouldBlock, Tail.fate]
    refine ⟨.drained, after.errno, by simp, ?_⟩
    simp only [forEvents, rdhup, Bool.false_eq_true, if_false, ended, ok_bind, fate, quiet, reduceCtorEq]

theorem forEvents_stops (readable : Readable network inv event) (stops : ¬ Passes disconnected event) :
    ∃ fate, fate ≠ .untouched ∧ forEvents network disconnected errno (event :: events) =
      .ok (fate :: events.map fun _ => .untouched) := by
  have rdhup : event.rdhup = false := by
    rw [← Bool.not_eq_true]
    exact fun rdhup => stops (.inl rdhup)
  obtain ⟨after, ended⟩ := readable.readLoop errno
  refine ⟨event.socket.tail.fate, ?_, ?_⟩
  · cases tail : event.socket.tail with
    | wouldBlock => simp [Tail.fate]
    | failing errno fatal => simp [Tail.fate]
    | endOfFile => exact absurd tail readable.more
  · have set : (if event.socket.tail.fate = .deleted then true else disconnected) = true := by
      cases tail : event.socket.tail with
      | wouldBlock =>
        cases quiet : disconnected with
        | true => simp
        | false => exact absurd (.inr ⟨quiet, tail⟩) stops
      | failing errno fatal => simp [Tail.fate]
      | endOfFile => exact absurd tail readable.more
    simp only [forEvents, rdhup, Bool.false_eq_true, if_false, ended, ok_bind, set, if_true, pure_is_ok]

/-- After the loop over the events every connection has been read until `EAGAIN`
or deleted exactly if each event but the last one is a half-close, or finds
`disconnected` unset and leads to `EAGAIN`. -/
theorem every_event_served_iff (events : List (Event κ)) (readable : ∀ event ∈ events, Readable network inv event)
    (disconnected : Bool) (errno : Nat) :
    ∃ fates, forEvents network disconnected errno events = .ok fates ∧ fates.length = events.length ∧
      ((∀ fate ∈ fates, fate ≠ .untouched) ↔ ∀ event ∈ events.dropLast, Passes disconnected event) := by
  induction events generalizing errno with
  | nil => exact ⟨[], rfl, rfl, by simp⟩
  | cons event later ih =>
    have first := readable event List.mem_cons_self
    by_cases passes : Passes disconnected event
    · obtain ⟨fate, errno', served, same⟩ := forEvents_passes first passes
      obtain ⟨fates, ran, length, iff⟩ :=
        ih (fun event member => readable event (List.mem_cons_of_mem _ member)) errno'
      refine ⟨fate :: fates, ?_, by simp [length], ?_⟩
      · rw [same, ran, ok_bind, pure_is_ok]
      · cases later with
        | nil =>
          have none := List.length_eq_zero_iff.mp length
          simp [none, served]
        | cons second others =>
          rw [List.dropLast_cons_cons, List.forall_mem_cons, List.forall_mem_cons, iff]
          simp [served, passes]
    · obtain ⟨fate, served, same⟩ := forEvents_stops first passes
      refine ⟨fate :: later.map fun _ => .untouched, same, by simp, ?_⟩
      cases later with
      | nil => simp [served]
      | cons second others => simp [passes]

end ShipNet.EpollEventLoop

namespace ShipNet.Connection
open Fallible ByteBufferImpl FramedByteBytePipe EpollEventLoop

variable {π δ γ : Type} {app : Application π δ γ} {c next after : Connection π δ γ}

/-! ### Connections as the event loop sees them -/

/-- `Connection`, for the event loop. -/
def networkClass (app : Application π δ γ) : ConnectionClass (Connection π δ γ) where
  handleNewBytes := handleNewBytes app
  readWriteCloser := readWriteCloser

theorem close_closed (c : Connection π δ γ) : c.close.readWriteCloser.closed = true := by
  unfold close UnixReadWriteCloser.close
  cases closed : c.readWriteCloser.closed with
  | true => simp [closed]
  | false => simp

private theorem offer_closer {receiver : Receiver} {handler : PacketHandler} {packet : PacketHolder}
    {frame : List UInt8} {result : Errorable Bool}
    (ran : offer app c receiver handler packet frame = .ok (result, next)) :
    next.readWriteCloser = c.readWriteCloser := by
  rw [offer_eq] at ran
  obtain ⟨⟨wasHandled, user, buffer, invocations⟩, -, same⟩ := returns_of_bind ran
  obtain ⟨readerBuffer, pipeline, replaced⟩ := setPacketBuffer_buffers c buffer
  cases same
  simp only [replaced]

private theorem dispatch_closed {packet : Errorable PacketHolder} {frame : List UInt8}
    (ran : dispatch app c packet frame = .ok after) (closed : c.readWriteCloser.closed = true) :
    after.readWriteCloser.closed = true := by
  rcases dispatch_cases ran with ⟨-, wasHandled, next, offered, reached⟩ | ⟨-, reached⟩
  · have still : next.readWriteCloser.closed = true := by
      rw [offer_closer offered, closed]
    rcases reached with rfl | rfl | further
    · exact still
    · exact close_closed next
    · apply offerFurther_keeps (fun reached => reached.readWriteCloser.closed = true) ?_ ?_ further still
      · exact fun reached _ => close_closed reached
      · intro reached item wasHandled next closed offered
        rw [offer_closer offered, closed]
  · rcases reached with rfl | rfl
    · exact closed
    · exact close_closed c

/-- `HandleNewBytes` does not open a closed connection. -/
theorem handleNewBytes_closed {page : List UInt8} (ran : handleNewBytes app c page = .ok after)
    (closed : c.readWriteCloser.closed = true) : after.readWriteCloser.closed = true := by
  obtain ⟨readerBuffer, pipeline, pipe, packet, frame, dispatched⟩ := handleNewBytes_cases ran
  exact dispatch_closed dispatched closed

variable {cap : Nat} {maxReadSize : UInt32} {main : PacketHandler} {further : List PacketHandler}

/-- A connection whose packets are taken serves frames that come one by one. -/
theorem serves_frames (consumes : ConsumesFrames app main further) {frames : List Framing.Frame}
    (deliverable : Deliverable maxReadSize frames) :
    Serves (networkClass app) (Resting cap maxReadSize main further []) (frames.map Framing.Frame.bytes) := by
  have keeps {c next : Connection π δ γ} {page : List UInt8} (ran : handleNewBytes app c page = .ok next) :
      Closed (networkClass app) c → Closed (networkClass app) next :=
    handleNewBytes_closed ran
  intro c page resting known
  rcases known with rfl | member
  · obtain ⟨next, ran, left, -⟩ := handleNewBytes_nothing app resting
    exact ⟨next, ran, left, keeps ran⟩
  · obtain ⟨frame, inside, rfl⟩ := List.mem_map.mp member
    obtain ⟨allowed, nonempty⟩ := deliverable frame inside
    obtain ⟨next, ran, left, -⟩ := handleNewBytes_frame consumes resting allowed nonempty
    exact ⟨next, ran, left, keeps ran⟩

/-- With a main handler alone, it also stays open. -/
theorem staysOpen_frames (consumes : ConsumesFrames app main []) {frames : List Framing.Frame}
    (deliverable : Deliverable maxReadSize frames) (resting : Resting cap maxReadSize main [] [] c)
    (opened : ¬ Closed (networkClass app) c) :
    StaysOpen (networkClass app) c (frames.map Framing.Frame.bytes) := by
  induction frames generalizing c with
  | nil => exact opened
  | cons frame later ih =>
    refine ⟨opened, ?_⟩
    intro next handled
    obtain ⟨allowed, nonempty⟩ := deliverable frame List.mem_cons_self
    obtain ⟨next', ran, left, -, sameCloser⟩ := handleNewBytes_frame consumes resting allowed nonempty
    have ran : (networkClass app).handleNewBytes c frame.bytes = .ok next' := ran
    rw [handled, Except.ok.injEq] at ran
    subst ran
    refine ih (fun frame member => deliverable frame (List.mem_cons_of_mem _ member)) left ?_
    intro closed
    have closed : next.readWriteCloser.closed = true := closed
    rw [sameCloser rfl] at closed
    exact opened closed

/-- A fresh connection, and a socket with these two frames. -/
private def quiet : Connection Unit Unit Unit :=
  new (fun _ _ => 0) 2 [] { maxReadSize := 10, decoder := () } ⟨0⟩ [] ()

private def twoFrames (tail : Tail) : Socket where
  pending := [[1, 7], [1, 8]]
  nonempty := by simp
  tail := tail

private theorem quiet_resting : Resting 2 10 ⟨0⟩ [] [] quiet :=
  ⟨⟨rfl, rfl, rfl, rfl, rfl⟩, represents_new _ (by simp)⟩

private theorem twoFrames_deliverable : Deliverable 10 ([7, 8].map shortFrame) :=
  shortFrames_deliverable [[7, 8]] _ (by simp)

private theorem quiet_serves : Serves (networkClass skimming) (Resting 2 10 ⟨0⟩ [] []) [[1, 7], [1, 8]] :=
  serves_frames (skimming_consumes ⟨0⟩) twoFrames_deliverable

private theorem quiet_staysOpen : StaysOpen (networkClass skimming) quiet [[1, 7], [1, 8]] :=
  staysOpen_frames (skimming_consumes ⟨0⟩) twoFrames_deliverable quiet_resting (by
    intro closed
    cases closed)

end ShipNet.Connection

namespace ShipNet.EpollEventLoop
open Fallible Connection

/-- A connection that is reset after two frames. -/
theorem read_loop_ends_after_reset :
    Ends .endless (readRound (networkClass skimming)) ⟨quiet, twoFrames (.failing econnreset (by decide)), 0⟩ :=
  (read_loop_ends_iff quiet_serves quiet_resting).mpr ⟨by simp [twoFrames], quiet_staysOpen⟩

/-- A connection that the peer half-closes after two frames is read forever. -/
theorem half_closed_read_loop_endless :
    ¬ ∀ (κ : Type) (network : ConnectionClass κ) (inv : κ → Prop) (reading : Reading κ),
      Serves network inv reading.socket.pending → inv reading.connection →
      Ends .endless (readRound network) reading := by
  intro always
  have idle : Serves (networkClass skimming) (Resting 2 10 ⟨0⟩ [] []) [] := quiet_serves.mono (by simp)
  have ends := always _ (networkClass skimming) _ ⟨quiet, ⟨[], by simp, .endOfFile⟩, 0⟩ idle quiet_resting
  exact endOfFile_not_ends idle quiet_resting rfl rfl ends

private def resetEvent : Event (Connection Unit Unit Unit) :=
  ⟨false, quiet, twoFrames (.failing econnreset (by decide))⟩

private def quietEvent (rdhup : Bool) : Event (Connection Unit Unit Unit) :=
  ⟨rdhup, quiet, twoFrames .wouldBlock⟩

private theorem events_readable (event : Event (Connection Unit Unit Unit))
    (known : event ∈ [resetEvent, quietEvent true, quietEvent false]) :
    Readable (networkClass skimming) (Resting 2 10 ⟨0⟩ [] []) event := by
  simp only [List.mem_cons, List.not_mem_nil, or_false] at known
  rcases known with rfl | rfl | rfl
  · exact ⟨quiet_serves, quiet_resting, quiet_staysOpen, by simp [resetEvent, twoFrames]⟩
  · exact ⟨quiet_serves, quiet_resting, quiet_staysOpen, by simp [quietEvent, twoFrames]⟩
  · exact ⟨quiet_serves, quiet_resting, quiet_staysOpen, by simp [quietEvent, twoFrames]⟩

/-- A half-close, a connection that is drained, and last one that is reset. -/
theorem every_event_served_before_reset :
    ∃ fates, forEvents (networkClass skimming) false 0 [quietEvent true, quietEvent false, resetEvent] =
        .ok fates ∧ fates.length = 3 ∧ ∀ fate ∈ fates, fate ≠ .untouched := by
  obtain ⟨fates, ran, length, served⟩ := every_event_served_iff
    [quietEvent true, quietEvent false, resetEvent]
    (fun event member => events_readable event (by simp at member ⊢; tauto)) false 0
  exact ⟨fates, ran, length, served.mpr (by simp [Passes, quietEvent, twoFrames])⟩

/-- After a reset the next connection of the batch is not read. -/
theorem event_after_reset_dropped :
    ¬ ∀ (κ : Type) (network : ConnectionClass κ) (inv : κ → Prop) (events : List (Event κ))
        (disconnected : Bool) (errno : Nat),
      (∀ event ∈ events, Readable network inv event) →
      ∃ fates, forEvents network disconnected errno events = .ok fates ∧ fates.length = events.length ∧
        ∀ fate ∈ fates, fate ≠ .untouched := by
  intro always
  obtain ⟨fates, ran, -, served⟩ := always _ (networkClass skimming) _ [resetEvent, quietEvent false] false 0
    fun event member => events_readable event (by simp at member ⊢; tauto)
  obtain ⟨fate, -, stopped⟩ : ∃ fate, fate ≠ .untouched ∧
      forEvents (networkClass skimming) false 0 [resetEvent, quietEvent false] = .ok [fate, .untouched] :=
    forEvents_stops (events_readable resetEvent (by simp)) (by simp [Passes, resetEvent, twoFrames])
  rw [ran, Except.ok.injEq] at stopped
  subst stopped
  exact served .untouched (by simp) rfl

end ShipNet.EpollEventLoop
