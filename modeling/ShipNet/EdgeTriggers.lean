import ShipNet.ServedConnections

/-! An edge-triggered registration reports a descriptor again only after more bytes have
come. What the loop leaves unread without such a report stays where it is. -/
namespace ShipNet.NetworkEventLoop
open Fallible EpollEventLoop

variable {κ : Type} {network : ConnectionObject κ} {l next : NetworkEventLoop κ} {address : Nat}

/-- The next `epoll_wait` reports every open connection that has bytes to read. -/
def Alert (network : ConnectionObject κ) (l : NetworkEventLoop κ) : Prop :=
  ∀ address endpoint, l.live address = some endpoint → Open network endpoint.connection.object →
    endpoint.unread ≠ [] → endpoint.ready = true

/-- The loop stops before an event of a connection that has bytes to read. -/
def Loses (l : NetworkEventLoop κ) : Input κ → Prop
  | .wait disconnected events => ∃ event ∈ dropped disconnected events, ∃ endpoint,
      l.live event.address = some endpoint ∧ endpoint.unread ≠ []
  | .accept _ _ _ | .arrive _ _ | .act _ _ => False

/-! ### Steps -/

theorem Alert.accept (alert : Alert network l) (sound : Sound l) {connection : κ} {unread : List UInt8} {added : Bool}
    (accepted : l.accept network connection unread added = .ok next) : Alert network next := by
  obtain ⟨-, elsewhere, fresh⟩ := (@Sound.accept κ network l sound connection unread added).of_ok accepted
  intro address endpoint there opened some_
  by_cases same : address = l.created
  · subst same
    rw [fresh endpoint there]
    simpa using some_
  · rw [elsewhere address (by simpa using same)] at there
    exact alert address endpoint there opened some_

theorem update_live_eq {change : Endpoint κ → Endpoint κ} {other : Nat} {endpoint : Endpoint κ}
    (there : Function.update l.live address ((l.live address).map change) other = some endpoint) :
    ∃ before, l.live other = some before ∧ endpoint = if address = other then change before else before := by
  by_cases same : other = address
  · subst same
    rw [Function.update_self] at there
    obtain ⟨before, live, rfl⟩ := Option.map_eq_some_iff.mp there
    exact ⟨before, live, by rw [if_pos rfl]⟩
  · rw [Function.update_of_ne same] at there
    exact ⟨endpoint, there, by rw [if_neg (Ne.symm same)]⟩

theorem Alert.arrive (alert : Alert network l) (address : Nat) (bytes : List UInt8) :
    Alert network (l.arrive address bytes) := by
  intro other endpoint there opened some_
  obtain ⟨before, live, rfl⟩ := update_live_eq there
  split at opened
  · rename_i same
    rw [if_pos same] at some_ ⊢
    have known := alert other before live opened
    cases bytes with
    | nil => simpa using known (by simpa using some_)
    | cons byte bytes => simp
  · rename_i apart
    rw [if_neg apart] at some_ ⊢
    exact alert other before live opened some_

theorem Alert.act (alert : Alert network l) {change : κ → κ}
    (opens : ∀ connection, Open network (change connection) → Open network connection) :
    Alert network (l.act address change) := by
  intro other endpoint there opened some_
  obtain ⟨before, live, rfl⟩ := update_live_eq there
  split at opened
  · rename_i same
    rw [if_pos same] at some_ ⊢
    exact alert other before live (opens _ opened) some_
  · rename_i apart
    rw [if_neg apart] at some_ ⊢
    exact alert other before live opened some_

/-- After the loop over a batch all bytes are to be reported exactly if none are behind
the event at which it stops. -/
theorem alert_wait_iff (sound : Sound l) {disconnected : Bool} {events : List Readiness} {fates : List Fate}
    (possible : Possible network l (.wait disconnected events))
    (ran : forEvents network disconnected events (l.take events) = .ok (fates, next)) (alert : Alert network l) :
    Alert network next ↔ ¬ Loses l (.wait disconnected events) := by
  have done := (sound.wait possible).of_ok ran
  obtain ⟨distinct, reported⟩ := possible
  rw [← served_dropped disconnected events, List.map_append, List.nodup_append] at distinct
  obtain ⟨-, -, apart⟩ := distinct
  -- A connection behind the last event is as `epoll_wait` left it.
  have behind {event : Readiness} (member : event ∈ dropped disconnected events) {endpoint : Endpoint κ}
      (there : l.live event.address = some endpoint) :
      next.live event.address = some { endpoint with ready := false } := by
    have inside : event.address ∈ events.map Readiness.address := by
      rw [← served_dropped disconnected events, List.map_append]
      exact List.mem_append_right _ (List.mem_map_of_mem member)
    have taken := take_live events there
    rw [if_pos inside] at taken
    refine (done.elsewhere event.address ?_).trans taken
    intro came
    exact apart _ came _ (List.mem_map_of_mem member) rfl
  constructor
  · rintro alertNext ⟨event, member, endpoint, there, some_⟩
    have among : event ∈ events := by
      rw [← served_dropped disconnected events]
      exact List.mem_append_right _ member
    obtain ⟨endpoint', there', reports⟩ := reported event among
    cases there.symm.trans there'
    have ready := alertNext _ _ (behind member there) reports.opened some_
    cases ready
  · intro keeps address endpoint there opened some_
    by_cases inside : address ∈ events.map Readiness.address
    · obtain ⟨event, member, rfl⟩ := List.mem_map.mp inside
      rw [← served_dropped disconnected events] at member
      rcases List.mem_append.mp member with came | left
      · exact absurd (done.read event came endpoint there) some_
      · obtain ⟨before, there', -⟩ := reported event (served_dropped disconnected events ▸ member)
        have now := behind left there'
        rw [there] at now
        cases now
        exact absurd ⟨event, left, before, there', some_⟩ keeps
    · have same : next.live address = l.live address := by
        refine (done.elsewhere address ?_).trans ?_
        · intro came
          refine inside ?_
          rw [← served_dropped disconnected events, List.map_append]
          exact List.mem_append_left _ came
        · cases there' : l.live address with
          | none => simp only [NetworkEventLoop.take, there', Option.map_none]
          | some before => rw [take_live events there', if_neg inside]
      rw [same] at there
      exact alert address endpoint there opened some_

theorem alert_step_iff (sound : Sound l) {input : Input κ} {fates : List Fate} (possible : Possible network l input)
    (stepped : step network l input = .ok (next, fates)) (alert : Alert network l) :
    Alert network next ↔ ¬ Loses l input := by
  cases input with
  | accept connection unread added =>
    obtain ⟨mid, accepted, same⟩ := returns_of_bind stepped
    cases same
    exact ⟨fun _ => id, fun _ => alert.accept sound accepted⟩
  | arrive address bytes =>
    cases stepped
    exact ⟨fun _ => id, fun _ => alert.arrive address bytes⟩
  | act address change =>
    cases stepped
    exact ⟨fun _ => id, fun _ => alert.act possible.2⟩
  | wait disconnected events =>
    obtain ⟨⟨fates', mid⟩, ran, same⟩ := returns_of_bind stepped
    cases same
    exact alert_wait_iff sound possible ran alert

/-! ### Runs -/

/-- `Connection` with a function in `onClose`, and two of them: the first is reset, the
second has a frame to read. -/
def twoConnections : ConnectionObject (Connection Unit Unit Unit) :=
  { Connection.networkClass Connection.skimming with hasOnClose := fun _ => true }

def freshConnection : Connection Unit Unit Unit :=
  Connection.new (fun _ _ => 0) 2 [] { maxReadSize := 10, decoder := () } ⟨0⟩ [] ()

theorem reset_fatal : econnreset ≠ eagain := by decide

def resetBeforeFrame : List (Input (Connection Unit Unit Unit)) :=
  [.accept freshConnection [] true, .accept freshConnection [1, 7] true,
    .wait false [⟨0, false, ⟨[], nofun, .failing econnreset reset_fatal⟩, []⟩,
      ⟨1, false, ⟨[[1, 7]], List.forall_mem_singleton.mpr (List.cons_ne_nil 1 [7]), .wouldBlock⟩, []⟩]]

theorem resetBeforeFrame_possible :
    Transition.Meets (step twoConnections) (Possible twoConnections) {} resetBeforeFrame := by
  refine ⟨trivial, ?_⟩
  rintro first _ ⟨⟩
  refine ⟨trivial, ?_⟩
  rintro second _ ⟨⟩
  refine ⟨⟨by simp, ?_⟩, fun _ _ _ => trivial⟩
  intro event member
  simp only [List.mem_cons, List.not_mem_nil, or_false] at member
  rcases member with rfl | rfl
  · exact ⟨_, rfl, rfl, .inr (.inr (by simp)), rfl⟩
  · exact ⟨_, rfl, rfl, .inl rfl, rfl⟩

/-- In all states of a run every open connection with unread bytes is about to be
reported, exactly if no loop over a batch stops before an event of a connection that has
bytes to read. -/
theorem bytes_reported_iff (network : ConnectionObject κ) (inputs : List (Input κ))
    (final : NetworkEventLoop κ × List (List Fate))
    (possible : Transition.Meets (step network) (Possible network) {} inputs)
    (ran : Transition.run (step network) {} inputs = .ok final) :
    (∀ earlier later reached, inputs = earlier ++ later →
      Transition.run (step network) {} earlier = .ok reached → Alert network reached.1) ↔
    Transition.Meets (step network) (fun l input => ¬ Loses l input) {} inputs := by
  refine holds_throughout_iff Sound (Alert network) ?_ .start ?_ possible ran
  · intro l input next fates sound possible stepped
    exact ⟨((sound.step possible).of_ok stepped).1, alert_step_iff sound possible stepped⟩
  · intro address endpoint impossible
    cases impossible

/-- The second connection is not read, and will not be reported. -/
theorem frame_behind_reset_unreported : ∃ final, Transition.run (step twoConnections) {} resetBeforeFrame = .ok final ∧
    ¬ ∀ earlier later reached, resetBeforeFrame = earlier ++ later →
      Transition.run (step twoConnections) {} earlier = .ok reached → Alert twoConnections reached.1 := by
  refine ⟨_, rfl, ?_⟩
  rw [bytes_reported_iff twoConnections resetBeforeFrame _ resetBeforeFrame_possible rfl]
  rintro ⟨-, first⟩
  obtain ⟨-, second⟩ := first _ _ rfl
  exact (second _ _ rfl).1 ⟨_, List.mem_cons_self, _, rfl, by simp⟩

theorem sound_of_reaches {inputs : List (Input κ)} {reached : NetworkEventLoop κ × List (List Fate)}
    (possible : Transition.Meets (step network) (Possible network) {} inputs)
    (reaches : Transition.run (step network) {} inputs = .ok reached) : Sound reached.1 :=
  (safe_run possible).of_ok reaches

/-- What is true of a connection, and no peer and no task changes, stays true as long as
no `epoll_wait` reports it. -/
theorem unreported_keeps (holds : Endpoint κ → Prop) {condition : NetworkEventLoop κ → Input κ → Prop}
    (unreported : ∀ l input endpoint, l.live address = some endpoint → holds endpoint → condition l input →
      (∀ disconnected events, input = .wait disconnected events → address ∉ events.map Readiness.address) ∧
      holds (changed address endpoint input))
    {inputs : List (Input κ)} {endpoint : Endpoint κ} {final : NetworkEventLoop κ × List (List Fate)}
    (sound : Sound l) (there : l.live address = some endpoint) (held : holds endpoint)
    (possible : Transition.Meets (step network) (fun l input => Possible network l input ∧ condition l input) l inputs)
    (ran : Transition.run (step network) l inputs = .ok final) :
    Sound final.1 ∧ ∃ after, final.1.live address = some after ∧ holds after := by
  refine Transition.run_ok_meets (fun l => Sound l ∧ ∃ endpoint, l.live address = some endpoint ∧ holds endpoint) ?_
    ⟨sound, endpoint, there, held⟩ possible ran
  rintro l input next fates ⟨sound, endpoint, there, held⟩ ⟨possible, condition⟩ stepped
  obtain ⟨soundNext, keeps⟩ := (sound.step possible).of_ok stepped
  obtain ⟨quiet, still⟩ := unreported l input endpoint there held condition
  exact ⟨soundNext, _, keeps address endpoint there quiet, still⟩

/-- Neither the peer sends on this connection nor does it end. -/
def Silent (address : Nat) : Input κ → Prop
  | .arrive other _ => other ≠ address
  | .wait _ events => ∀ event ∈ events, event.address = address → event.rdhup = false ∧
      event.socket.tail = .wouldBlock
  | .accept _ _ _ | .act _ _ => True

/-- Bytes that a run has left unread without a report to come are not handed over before
the peer sends more or ends the connection, whatever else happens. -/
theorem unreported_bytes_stay (network : ConnectionObject κ) (earlier later : List (Input κ)) (address : Nat)
    (reached final : NetworkEventLoop κ × List (List Fate)) (endpoint : Endpoint κ)
    (possible : Transition.Meets (step network) (Possible network) {} earlier)
    (reaches : Transition.run (step network) {} earlier = .ok reached)
    (there : reached.1.live address = some endpoint) (missed : endpoint.ready = false)
    (further : Transition.Meets (step network) (Possible network) reached.1 later)
    (silent : ∀ input ∈ later, Silent address input)
    (ran : Transition.run (step network) reached.1 later = .ok final) :
    ∃ after, final.1.live address = some after ∧ after.unread = endpoint.unread ∧
      after.connection.handed = endpoint.connection.handed := by
  have sound := sound_of_reaches possible reaches
  have meets := further.and_forall silent
  refine (unreported_keeps (fun after => after.ready = false ∧ after.unread = endpoint.unread ∧
    after.connection.handed = endpoint.connection.handed) ?_ sound there ⟨missed, rfl, rfl⟩
    (meets.mono fun l input both => ⟨both.2, both⟩) ran).2.imp fun after kept => ⟨kept.1, kept.2.2⟩
  rintro l input before live ⟨notReady, same, handed⟩ ⟨quiet, possible⟩
  cases input with
  | accept connection unread added => exact ⟨nofun, notReady, same, handed⟩
  | arrive other bytes =>
    have quiet : other ≠ address := quiet
    refine ⟨nofun, ?_⟩
    rw [changed, if_neg quiet]
    exact ⟨notReady, same, handed⟩
  | act other change =>
    refine ⟨nofun, ?_⟩
    simp only [changed]
    split
    · exact ⟨notReady, same, handed⟩
    · exact ⟨notReady, same, handed⟩
  | wait disconnected events =>
    refine ⟨?_, notReady, same, handed⟩
    rintro _ _ ⟨⟩ inside
    obtain ⟨event, member, rfl⟩ := List.mem_map.mp inside
    obtain ⟨before', live', reports⟩ := possible.2 event member
    cases live.symm.trans live'
    obtain ⟨open_, blocks⟩ := quiet event member rfl
    rcases reports.signalled with ready | closing | ends
    · rw [notReady] at ready
      cases ready
    · rw [open_] at closing
      cases closing
    · exact ends blocks

/-- The frame behind the reset, while a task works on its connection. -/
theorem frame_behind_reset_stays : ∃ final, Transition.run (step twoConnections) {} resetBeforeFrame = .ok final ∧
    ∃ last, Transition.run (step twoConnections) final.1 [.wait false [], .act 1 id] = .ok last ∧
      ∃ after, last.1.live 1 = some after ∧ after.unread = [1, 7] ∧ after.connection.handed = [] := by
  refine ⟨_, rfl, _, rfl, ?_⟩
  refine unreported_bytes_stay twoConnections resetBeforeFrame [.wait false [], .act 1 id] 1 _ _ _
    resetBeforeFrame_possible rfl rfl rfl ?_ ?_ rfl
  · refine ⟨⟨List.nodup_nil, fun event member => absurd member List.not_mem_nil⟩, ?_⟩
    rintro next _ ⟨⟩
    exact ⟨⟨⟨_, rfl⟩, fun connection opened => opened⟩, fun _ _ _ => trivial⟩
  · intro input member
    simp only [List.mem_cons, List.not_mem_nil, or_false] at member
    rcases member with rfl | rfl
    · exact fun event member => absurd member List.not_mem_nil
    · exact trivial

/-- A connection that its own code has closed is never reported again, so the event loop
never deletes it, and `onClose` is not called. -/
theorem closed_connection_never_deleted (network : ConnectionObject κ) (earlier later : List (Input κ))
    (address : Nat) (reached final : NetworkEventLoop κ × List (List Fate)) (endpoint : Endpoint κ)
    (possible : Transition.Meets (step network) (Possible network) {} earlier)
    (reaches : Transition.run (step network) {} earlier = .ok reached)
    (there : reached.1.live address = some endpoint) (closed : ¬ Open network endpoint.connection.object)
    (further : Transition.Meets (step network) (Possible network) reached.1 later)
    (ran : Transition.run (step network) reached.1 later = .ok final) :
    address ∉ final.1.deleted ∧ ∃ after, final.1.live address = some after ∧
      after.connection.handed = endpoint.connection.handed := by
  have sound := sound_of_reaches possible reaches
  have kept := unreported_keeps (fun after => ¬ Open network after.connection.object ∧
    after.connection.handed = endpoint.connection.handed) ?_ sound there ⟨closed, rfl⟩
    (further.mono fun l input possible => ⟨possible, possible⟩) ran
  · obtain ⟨soundFinal, after, live, -, handed⟩ := kept
    refine ⟨fun deleted => ?_, after, live, handed⟩
    rw [soundFinal.gone address deleted] at live
    cases live
  · rintro l input before live ⟨closed, handed⟩ possible
    cases input with
    | accept connection unread added => exact ⟨nofun, closed, handed⟩
    | arrive other bytes =>
      refine ⟨nofun, ?_⟩
      simp only [changed]
      split
      · exact ⟨closed, handed⟩
      · exact ⟨closed, handed⟩
    | act other change =>
      refine ⟨nofun, ?_⟩
      simp only [changed]
      split
      · exact ⟨fun opened => closed (possible.2 _ opened), handed⟩
      · exact ⟨closed, handed⟩
    | wait disconnected events =>
      refine ⟨?_, closed, handed⟩
      rintro _ _ ⟨⟩ inside
      obtain ⟨event, member, rfl⟩ := List.mem_map.mp inside
      obtain ⟨before', live', reports⟩ := possible.2 event member
      cases live.symm.trans live'
      exact closed reports.opened

/-- A task closes its connection. -/
theorem connection_closed_by_task_never_deleted : ∃ reached,
    Transition.run (step twoConnections) {} [.accept freshConnection [] true, .act 0 Connection.close] = .ok reached ∧
      ∃ final, Transition.run (step twoConnections) reached.1 [.wait false []] = .ok final ∧
        0 ∉ final.1.deleted ∧ ∃ after, final.1.live 0 = some after ∧ after.connection.handed = [] := by
  refine ⟨_, rfl, _, rfl, ?_⟩
  refine closed_connection_never_deleted twoConnections [.accept freshConnection [] true, .act 0 Connection.close]
    [.wait false []] 0 _ _ _ ?_ rfl rfl ?_ ?_ rfl
  · refine ⟨trivial, ?_⟩
    rintro next _ ⟨⟩
    refine ⟨⟨⟨_, rfl⟩, fun connection opened => ?_⟩, fun _ _ _ => trivial⟩
    exact absurd ((Connection.close_closed connection).symm.trans opened) (by simp)
  · intro opened
    cases opened
  · exact ⟨⟨List.nodup_nil, fun event member => absurd member List.not_mem_nil⟩, fun _ _ _ => trivial⟩

end ShipNet.NetworkEventLoop
