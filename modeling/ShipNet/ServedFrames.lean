import ShipNet.EdgeTriggers
import ShipNet.Peers

/-! One connection among the others of an event loop. What becomes of it is a matter of its
own reads and tasks, and the frames of its peer go to its handlers in their order, whatever
happens to the others. -/
namespace ShipNet.EpollEventLoop
open Fallible

variable {κ : Type} {network : ConnectionClass κ} {reading : Reading κ}

/-- `HandleNewBytes` does not open a closed connection. -/
def StaysClosed (network : ConnectionClass κ) : Prop :=
  ∀ connection page next, network.handleNewBytes connection page = .ok next →
    (network.readWriteCloser connection).closed = true → (network.readWriteCloser next).closed = true

theorem stuck_not_ok (staysClosed : StaysClosed network) (stuck : Stuck network reading) (fuel : Nat)
    (out : Fate × Reading κ) : loop .endless (readRound network) fuel reading ≠ .ok out := by
  induction fuel generalizing reading with
  | zero => exact fun ran => by cases ran
  | succ fuel ih =>
    intro ran
    obtain ⟨round, stepped, rest⟩ := returns_of_bind ran
    cases readRound_cases stepped with
    | nothing stuck' handled =>
      refine ih ?_ rest
      rcases stuck with closed | ended
      · exact .inl (staysClosed _ _ _ handled closed)
      · exact .inr ended
    | page opened pending tail handled =>
      rcases stuck with closed | ⟨drained, -⟩
      · rw [opened] at closed
        cases closed
      · rw [drained] at pending
        cases pending
    | last opened drained more errno =>
      rcases stuck with closed | ⟨-, ended⟩
      · rw [opened] at closed
        cases closed
      · exact more ended

/-- A loop over one connection that ends has called `HandleNewBytes` with each page once,
and with nothing else. -/
theorem readLoop_calls (staysClosed : StaysClosed network) {fate : Fate} {after : Reading κ}
    (ran : readLoop network reading = .ok (fate, after)) :
    reading.socket.pending.foldlM network.handleNewBytes reading.connection = .ok after.connection := by
  unfold readLoop at ran
  generalize reading.socket.pending.length + 1 = fuel at ran
  induction fuel generalizing reading with
  | zero => cases ran
  | succ fuel ih =>
    obtain ⟨round, stepped, rest⟩ := returns_of_bind ran
    cases readRound_cases stepped with
    | nothing stuck handled =>
      refine absurd rest (stuck_not_ok staysClosed ?_ fuel _)
      rcases stuck with closed | ended
      · exact .inl (staysClosed _ _ _ handled closed)
      · exact .inr ended
    | page opened pending tail handled =>
      rw [pending, List.foldlM_cons, handled, ok_bind]
      exact ih rest
    | last opened drained more errno =>
      cases rest
      rw [drained]
      rfl

end ShipNet.EpollEventLoop

namespace ShipNet.NetworkEventLoop
open Fallible EpollEventLoop

variable {κ : Type} {network : ConnectionObject κ} {l next : NetworkEventLoop κ} {address : Nat}
  {endpoint after : Endpoint κ}

/-! ### One address in a batch -/

theorem recording_calls {pages : List (List UInt8)} {connection last : Recorded κ}
    (handled : pages.foldlM (recording network.toConnectionClass).handleNewBytes connection = .ok last) :
    pages.foldlM network.handleNewBytes connection.object = .ok last.object := by
  induction pages generalizing connection with
  | nil =>
    cases handled
    rfl
  | cons page later ih =>
    rw [List.foldlM_cons] at handled ⊢
    obtain ⟨mid, first, rest⟩ := returns_of_bind handled
    obtain ⟨object, called, same⟩ := returns_of_bind first
    cases same
    rw [called, ok_bind]
    exact ih rest

/-- The connection has been read: its socket's pages were handed over one by one. -/
structure ReadOut (network : ConnectionObject κ) (event : Readiness) (endpoint after : Endpoint κ) : Prop where
  calls : event.socket.pending.foldlM network.handleNewBytes endpoint.connection.object = .ok after.connection.object
  unread : after.unread = []
  sent : after.sent = endpoint.sent ++ event.meanwhile

theorem readConnection_readOut (staysClosed : StaysClosed network.toConnectionClass) {event : Readiness} {fate : Fate}
    (ran : l.readConnection network event = .ok (fate, next)) (there : l.live event.address = some endpoint)
    (left : next.live event.address = some after) : ReadOut network event endpoint after := by
  have closed : StaysClosed (recording network.toConnectionClass) := by
    intro connection page last handled closed
    obtain ⟨object, called, same⟩ := returns_of_bind handled
    cases same
    exact staysClosed _ _ _ called closed
  simp only [NetworkEventLoop.readConnection, there] at ran
  split at ran
  · cases ran
  · rename_i fate' reading looped
    have calls := recording_calls (readLoop_calls closed looped)
    split at ran
    · obtain ⟨mid, deleted, same⟩ := returns_of_bind ran
      cases same
      rw [delete_ok deleted] at left
      have impossible := (Function.update_self ..).symm.trans left
      cases impossible
    · cases ran
      have left := (Function.update_self ..).symm.trans left
      cases left
      exact ⟨calls, rfl, rfl⟩

theorem forEvents_elsewhere {disconnected : Bool} {events : List Readiness} {fates : List Fate}
    (ran : NetworkEventLoop.forEvents network disconnected events l = .ok (fates, next)) :
    Elsewhere (events.map Readiness.address) l next := by
  intro other outside
  have apart {event : Readiness} (member : event ∈ events) : other ≠ event.address := by
    rintro rfl
    exact outside (List.mem_map_of_mem member)
  refine forEvents_keeps (fun next => next.live other = l.live other) ?_ ?_ rfl ran
  · intro event member before after same deleted
    rw [delete_ok deleted]
    exact (Function.update_of_ne (apart member) ..).trans same
  · intro event member before after fate same read
    obtain ⟨-, -, -, -, -, elsewhere⟩ := readConnection_ok read
    exact (elsewhere other (by simpa using apart member)).trans same

/-- A connection that is live after a batch is as it was, or its event was the one that
was read. -/
theorem forEvents_at (staysClosed : StaysClosed network.toConnectionClass) {disconnected : Bool}
    {events : List Readiness} {fates : List Fate} (distinct : (events.map Readiness.address).Nodup)
    (ran : NetworkEventLoop.forEvents network disconnected events l = .ok (fates, next))
    (there : l.live address = some endpoint) (left : next.live address = some after) :
    after = endpoint ∨ ∃ event ∈ events, event.address = address ∧ ReadOut network event endpoint after := by
  induction events generalizing l disconnected fates with
  | nil =>
    cases ran
    cases there.symm.trans left
    exact .inl rfl
  | cons event later ih =>
    rw [List.map_cons, List.nodup_cons] at distinct
    unfold NetworkEventLoop.forEvents at ran
    split at ran
    · obtain ⟨mid, deleted, rest⟩ := returns_of_bind ran
      obtain ⟨⟨others, last⟩, further, same⟩ := returns_of_bind rest
      cases same
      cases delete_ok deleted
      by_cases own : address = event.address
      · subst own
        have gone := (forEvents_elsewhere further _ distinct.1).symm.trans left
        have impossible := (Function.update_self ..).symm.trans gone
        cases impossible
      · have kept := (Function.update_of_ne own none l.live).trans there
        rcases ih distinct.2 further kept with same | ⟨event', member, at_, out⟩
        · exact .inl same
        · exact .inr ⟨event', List.mem_cons_of_mem _ member, at_, out⟩
    · obtain ⟨⟨fate, mid⟩, read, rest⟩ := returns_of_bind ran
      obtain ⟨-, -, -, -, -, elsewhere⟩ := readConnection_ok read
      have goesOn (stopping : Bool) (rest : (if stopping = true then
            (pure (fate :: later.map fun _ => .untouched, mid) : Except Halt (List Fate × NetworkEventLoop κ))
          else NetworkEventLoop.forEvents network stopping later mid >>= fun out => pure (fate :: out.1, out.2)) =
            .ok (fates, next)) :
          next = mid ∨ ∃ others, NetworkEventLoop.forEvents network stopping later mid = .ok (others, next) := by
        split at rest
        · cases rest
          exact .inl rfl
        · obtain ⟨⟨others, last⟩, further, same⟩ := returns_of_bind rest
          cases same
          exact .inr ⟨others, further⟩
      have continued := goesOn (if fate = .deleted then true else disconnected) rest
      by_cases own : address = event.address
      · subst own
        refine .inr ⟨event, List.mem_cons_self, rfl, ?_⟩
        rcases continued with rfl | ⟨others, further⟩
        · exact readConnection_readOut staysClosed read there left
        · rw [forEvents_elsewhere further _ distinct.1] at left
          exact readConnection_readOut staysClosed read there left
      · have kept := (elsewhere address (by simpa using own)).trans there
        rcases continued with rfl | ⟨others, further⟩
        · cases kept.symm.trans left
          exact .inl rfl
        · rcases ih distinct.2 further kept with same | ⟨event', member, at_, out⟩
          · exact .inl same
          · exact .inr ⟨event', List.mem_cons_of_mem _ member, at_, out⟩

/-! ### One address in a run -/

/-- How a connection that is live after an input has come to be as it is. -/
inductive Became (network : ConnectionObject κ) (l : NetworkEventLoop κ) (address : Nat) (after : Endpoint κ) :
    Input κ → Prop
  | made {connection : κ} {unread : List UInt8} {added : Bool} (new : address = l.created)
      (fresh : after.connection = ⟨connection, []⟩) (received : after.unread = unread ∧ after.sent = unread) :
      Became network l address after (.accept connection unread added)
  | kept {input : Input κ} {before : Endpoint κ} (there : l.live address = some before)
      (connection : after.connection = before.connection) (unread : after.unread = before.unread)
      (sent : after.sent = before.sent) : Became network l address after input
  | came {bytes : List UInt8} {before : Endpoint κ} (there : l.live address = some before)
      (connection : after.connection = before.connection) (unread : after.unread = before.unread ++ bytes)
      (sent : after.sent = before.sent ++ bytes) : Became network l address after (.arrive address bytes)
  | acted {change : κ → κ} {before : Endpoint κ} (there : l.live address = some before)
      (object : after.connection.object = change before.connection.object) (unread : after.unread = before.unread)
      (sent : after.sent = before.sent) : Became network l address after (.act address change)
  | read {disconnected : Bool} {events : List Readiness} {event : Readiness} {before : Endpoint κ}
      (member : event ∈ events) (at_ : event.address = address) (there : l.live address = some before)
      (brings : event.socket.pending.flatten = before.unread ++ event.meanwhile)
      (out : ReadOut network event before after) : Became network l address after (.wait disconnected events)

theorem accept_live {connection : κ} {unread : List UInt8} {added : Bool}
    (accepted : l.accept network connection unread added = .ok next) (left : next.live address = some after) :
    (address = l.created ∧ after.connection = ⟨connection, []⟩ ∧ after.unread = unread ∧ after.sent = unread) ∨
      l.live address = some after := by
  unfold NetworkEventLoop.accept at accepted
  by_cases own : address = l.created
  · subst own
    split at accepted
    · cases accepted
      cases (Function.update_self ..).symm.trans left
      exact .inl ⟨rfl, rfl, rfl, rfl⟩
    · rw [delete_ok accepted] at left
      have impossible := (Function.update_self ..).symm.trans left
      cases impossible
  · split at accepted
    · cases accepted
      exact .inr ((Function.update_of_ne own ..).symm.trans left)
    · rw [delete_ok accepted] at left
      have left := (Function.update_of_ne own ..).symm.trans left
      exact .inr ((Function.update_of_ne own ..).symm.trans left)

theorem step_became (staysClosed : StaysClosed network.toConnectionClass) {input : Input κ} {fates : List Fate}
    (possible : Possible network l input) (stepped : step network l input = .ok (next, fates))
    (left : next.live address = some after) : Became network l address after input := by
  cases input with
  | accept connection unread added =>
    obtain ⟨mid, accepted, same⟩ := returns_of_bind stepped
    cases same
    rcases accept_live accepted left with ⟨new, fresh, received⟩ | there
    · exact .made new fresh received
    · exact .kept there rfl rfl rfl
  | arrive other bytes =>
    cases stepped
    obtain ⟨before, there, rfl⟩ := update_live_eq left
    by_cases own : other = address
    · subst own
      rw [if_pos rfl]
      exact .came there rfl rfl rfl
    · rw [if_neg own]
      exact .kept there rfl rfl rfl
  | act other change =>
    cases stepped
    obtain ⟨before, there, rfl⟩ := update_live_eq left
    by_cases own : other = address
    · subst own
      rw [if_pos rfl]
      exact .acted there rfl rfl rfl
    · rw [if_neg own]
      exact .kept there rfl rfl rfl
  | wait disconnected events =>
    obtain ⟨⟨fates', mid⟩, ran, same⟩ := returns_of_bind stepped
    cases same
    cases before : l.live address with
    | none =>
      -- nothing comes to life in a batch
      have gone : next.live address = none := by
        refine forEvents_keeps (fun next => next.live address = none) ?_ ?_ ?_ ran
        · intro event _ l next none_ deleted
          rw [delete_ok deleted]
          by_cases own : address = event.address
          · subst own
            exact Function.update_self ..
          · exact (Function.update_of_ne own ..).trans none_
        · intro event _ l next fate none_ read
          obtain ⟨endpoint, reading, there, -, -, elsewhere⟩ := readConnection_ok read
          refine (elsewhere address ?_).trans none_
          rw [List.mem_singleton]
          rintro rfl
          have impossible := none_.symm.trans there
          cases impossible
        · simp only [NetworkEventLoop.take, before, Option.map_none]
      have impossible := gone.symm.trans left
      cases impossible
    | some endpoint =>
      have taken := take_live events before
      rcases forEvents_at staysClosed possible.1 ran taken left with rfl | ⟨event, member, at_, out⟩
      · split
        · exact .kept before rfl rfl rfl
        · exact .kept before rfl rfl rfl
      · obtain ⟨endpoint', there, reports⟩ := possible.2 event member
        rw [at_] at there
        cases before.symm.trans there
        refine .read member at_ before reports.brings ?_
        split at out
        · exact ⟨out.calls, out.unread, out.sent⟩
        · exact out

/-- What is made true of the connection at an address, and its own inputs keep, is true of
it as long as it is live, whatever the inputs of the others do. -/
theorem run_at (staysClosed : StaysClosed network.toConnectionClass) (holds : Endpoint κ → Prop)
    {condition : NetworkEventLoop κ → Input κ → Prop}
    (keeps : ∀ l input after, condition l input → (∀ before, l.live address = some before → holds before) →
      Became network l address after input → holds after)
    {inputs : List (Input κ)} {final : NetworkEventLoop κ × List (List Fate)}
    (possible : Transition.Meets (step network) (fun l input => Possible network l input ∧ condition l input) l inputs)
    (ran : Transition.run (step network) l inputs = .ok final)
    (start : ∀ before, l.live address = some before → holds before) :
    ∀ after, final.1.live address = some after → holds after := by
  refine Transition.run_ok_meets (fun l => ∀ before, l.live address = some before → holds before) ?_ start possible ran
  intro l input next fates held possible stepped after left
  exact keeps l input after possible.2 held (step_became staysClosed possible.1 stepped left)

end ShipNet.NetworkEventLoop

namespace ShipNet.Connection
open Fallible ByteBufferImpl EpollEventLoop NetworkEventLoop

variable {π δ γ : Type} {app : Application π δ γ} {cap : Nat} {maxReadSize : UInt32} {main : PacketHandler}
  {further : List PacketHandler} {frames : List Framing.Frame} {c after : Connection π δ γ} {address : Nat}

/-! ### The frames of one peer -/

theorem staysClosed_networkClass (app : Application π δ γ) : StaysClosed (networkClass app) :=
  fun _ _ _ handled closed => handleNewBytes_closed handled closed

/-- The first of the frames have been handed over, and the bytes of the others are in the
buffer or still come. -/
def Delivers (cap : Nat) (maxReadSize : UInt32) (main : PacketHandler) (further : List PacketHandler)
    (frames : List Framing.Frame) (c : Connection π δ γ) (coming : List UInt8) : Prop :=
  ∃ handed awaited, frames = handed ++ awaited ∧ c.handed = handed.map Framing.Frame.body ∧
    c.Awaits cap maxReadSize main further awaited coming

theorem Delivers.pages (consumes : ConsumesFrames app main further) (deliverable : Deliverable maxReadSize frames)
    {pages : List (List UInt8)} {coming : List UInt8}
    (delivers : Delivers cap maxReadSize main further frames c (pages.flatten ++ coming))
    (ripe : Transition.Meets (pageStep app) Ripe c pages)
    (ran : pages.foldlM (Connection.handleNewBytes app) c = .ok after) :
    Delivers cap maxReadSize main further frames after coming := by
  induction pages generalizing c with
  | nil =>
    cases ran
    exact delivers
  | cons page later ih =>
    obtain ⟨handed, awaited, split, order, awaits⟩ := delivers
    rw [List.flatten_cons, List.append_assoc] at awaits
    have awaited_ : Deliverable maxReadSize awaited := by
      intro frame member
      exact deliverable frame (split ▸ List.mem_append_right _ member)
    obtain ⟨next, handled, advance⟩ := awaits.handleNewBytes consumes awaited_ ripe.1
    rw [List.foldlM_cons, handled, ok_bind] at ran
    have stepped : pageStep app c page = .ok (next, ()) := by rw [pageStep, handled]; rfl
    refine ih ?_ (ripe.2 next () stepped) ran
    cases advance with
    | waited _ awaits same => exact ⟨handed, awaited, split, same.trans order, awaits⟩
    | handed frame others first _ awaits one =>
      refine ⟨handed ++ [frame], others, ?_, ?_, awaits⟩
      · rw [split, first, List.append_assoc]
        rfl
      · rw [one, order, List.map_append]
        rfl

/-- A task or the code around it leaves the reading side alone. -/
def Spares (change : Connection π δ γ → Connection π δ γ) : Prop :=
  ∀ c, ∃ user readWriteCloser, change c = { c with user := user, readWriteCloser := readWriteCloser }

theorem Delivers.spared {coming : List UInt8} (delivers : Delivers cap maxReadSize main further frames c coming)
    {change : Connection π δ γ → Connection π δ γ} (spares : Spares change) :
    Delivers cap maxReadSize main further frames (change c) coming := by
  obtain ⟨user, readWriteCloser, same⟩ := spares c
  obtain ⟨handed, awaited, split, order, awaits⟩ := delivers
  rw [same]
  refine ⟨handed, awaited, split, order, ?_⟩
  cases awaits with
  | between standing joined =>
    refine .between ?_ joined
    exact ⟨standing.pipeline, standing.announced, standing.limit, standing.main, standing.further, standing.held⟩
  | within standing short joined =>
    refine .within ?_ short joined
    exact ⟨standing.pipeline, standing.announced, standing.limit, standing.main, standing.further, standing.held⟩

/-- What the connection at this address is given: it is made as usual, no task works on its
reading side, and its pages are ripe. The other connections are given anything. -/
def Usual (app : Application π δ γ) (cap : Nat) (maxReadSize : UInt32) (main : PacketHandler)
    (further : List PacketHandler) (address : Nat) (l : NetworkEventLoop (Connection π δ γ)) :
    Input (Connection π δ γ) → Prop
  | .accept connection _ _ => l.created = address → ∃ heap decoder user,
      connection = new heap cap [] { maxReadSize := maxReadSize, decoder := decoder } main further user
  | .arrive _ _ => True
  | .act other change => other = address → Spares change
  | .wait _ events => ∀ event ∈ events, event.address = address → ∀ endpoint, l.live address = some endpoint →
      Transition.Meets (pageStep app) Ripe endpoint.connection.object event.socket.pending

/-- Among other connections, whatever becomes of them: the frames that one peer sends go to
the handlers of its connection in their order and once each, the bytes of those that have
not are in its buffer, unread or not yet sent, and where there are none, all frames have
been handed over. -/
theorem frames_served (app : Application π δ γ) (hasOnClose : Connection π δ γ → Bool)
    (consumes : ConsumesFrames app main further) (positive : 0 < cap) (address : Nat) (frames : List Framing.Frame)
    (deliverable : Deliverable maxReadSize frames) (inputs : List (Input (Connection π δ γ)))
    (final : NetworkEventLoop (Connection π δ γ) × List (List Fate)) (endpoint : Endpoint (Connection π δ γ))
    (rest : List UInt8)
    (possible : Transition.Meets (NetworkEventLoop.step { networkClass app with hasOnClose := hasOnClose })
      (fun l input => Possible { networkClass app with hasOnClose := hasOnClose } l input ∧
        Usual app cap maxReadSize main further address l input) {} inputs)
    (ran : Transition.run (NetworkEventLoop.step { networkClass app with hasOnClose := hasOnClose }) {} inputs =
      .ok final)
    (there : final.1.live address = some endpoint) (sends : endpoint.sent ++ rest = Framing.stream frames) :
    Delivers cap maxReadSize main further frames endpoint.connection.object (endpoint.unread ++ rest) ∧
      (endpoint.connection.object.readerBuffer.content = [] → endpoint.unread = [] → rest = [] →
        endpoint.connection.object.handed = frames.map Framing.Frame.body) := by
  have delivers :
      Delivers cap maxReadSize main further frames endpoint.connection.object (endpoint.unread ++ rest) := by
    refine run_at (staysClosed_networkClass app) (fun endpoint => ∀ rest, endpoint.sent ++ rest = Framing.stream frames →
      Delivers cap maxReadSize main further frames endpoint.connection.object (endpoint.unread ++ rest)) ?_ possible ran
      (fun before impossible => by cases impossible) endpoint there rest sends
    intro l input after usual known became rest sends
    cases became with
    | made own fresh received =>
      obtain ⟨heap, decoder, user, rfl⟩ := usual own.symm
      rw [fresh, received.1, ← received.2, sends]
      exact ⟨[], frames, rfl, rfl, .between ⟨rfl, rfl, rfl, rfl, rfl, represents_new heap positive⟩ rfl⟩
    | kept before connection unread sent =>
      rw [connection, unread]
      exact known _ before rest (sent ▸ sends)
    | came before connection unread sent =>
      rw [sent, List.append_assoc] at sends
      rw [connection, unread, List.append_assoc]
      exact known _ before _ sends
    | acted before object unread sent =>
      rw [object, unread]
      exact (known _ before rest (sent ▸ sends)).spared (usual rfl)
    | read member own before brings out =>
      rw [out.sent, List.append_assoc] at sends
      have earlier := known _ before _ sends
      rw [← List.append_assoc, ← brings] at earlier
      rw [out.unread, List.nil_append]
      exact earlier.pages consumes deliverable (usual _ member own _ before) out.calls
  refine ⟨delivers, fun reader unread none_ => ?_⟩
  obtain ⟨handed, awaited, split, order, awaits⟩ := delivers
  rw [unread, none_] at awaits
  have deliverableRest : Deliverable maxReadSize awaited := by
    intro frame member
    exact deliverable frame (split ▸ List.mem_append_right _ member)
  rw [Peers.awaits_nothing awaits deliverableRest reader, List.append_nil] at split
  rw [order, split]

/-- A socket with one page to read. -/
def pageAt (address : Nat) (byte : UInt8) (later : List UInt8) : Readiness :=
  ⟨address, false, ⟨[byte :: later], List.forall_mem_singleton.mpr (List.cons_ne_nil byte later), .wouldBlock⟩, []⟩

/-- A frame is to be read, and another connection comes to its end. -/
def frameBesideEnd : List (Input (Connection Unit Unit Unit)) :=
  [.accept freshConnection [200] true, .accept freshConnection [3, 4, 5, 6] true,
    .wait false [{ pageAt 0 200 [] with rdhup := true }, pageAt 1 3 [4, 5, 6]]]

theorem threeBytes_ripe : Ripe freshConnection [3, 4, 5, 6] := by
  have whole : Base128.decode 5 [3, 4, 5, 6] = .complete 3 [4, 5, 6] := rfl
  refine ⟨fun _ => .inr fun cut => ?_, ?_⟩
  · cases whole.symm.trans cut
  · rintro ⟨-, length, rest, announced, short, counted⟩
    have found : Announced 0 (· ≤ (10 : UInt32)) [3, 4, 5, 6] 3 [4, 5, 6] := ⟨3, rfl, rfl, by simp⟩
    obtain ⟨rfl, rfl⟩ := found.unique announced
    exact absurd short (by simp)

theorem frame_served_beside_end : ∃ final endpoint,
    Transition.run (NetworkEventLoop.step twoConnections) {} frameBesideEnd = .ok final ∧
      final.1.deleted = [0] ∧ final.1.live 1 = some endpoint ∧
      endpoint.connection.object.handed = [[4, 5, 6]] := by
  refine ⟨_, _, rfl, rfl, rfl, ?_⟩
  refine (frames_served skimming (fun _ => true) (skimming_consumes ⟨0⟩) (by simp : 0 < 2) 1 [threeBytes]
    (threeBytes_deliverable 1) frameBesideEnd _ _ [] ?_ rfl rfl rfl).2 rfl rfl rfl
  refine Transition.meets_cons ⟨trivial, fun impossible => by cases impossible⟩ rfl ?_
  refine Transition.meets_cons ⟨trivial, fun _ => ⟨fun _ _ => 0, (), (), rfl⟩⟩ rfl ?_
  refine Transition.meets_cons ⟨⟨?_, ?_⟩, ?_⟩ rfl trivial
  · simp [pageAt]
  · intro event member
    simp only [List.mem_cons, List.not_mem_nil, or_false] at member
    rcases member with rfl | rfl
    · exact ⟨_, rfl, rfl, .inl rfl, rfl⟩
    · exact ⟨_, rfl, rfl, .inl rfl, rfl⟩
  · intro event member own endpoint there
    simp only [List.mem_cons, List.not_mem_nil, or_false] at member
    rcases member with rfl | rfl
    · cases own
    · cases there
      exact Transition.meets_cons threeBytes_ripe rfl trivial

end ShipNet.Connection
