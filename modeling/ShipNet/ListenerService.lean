import ShipNet.EpollListener
import ShipNet.EdgeTriggers

/-! A listener and its event loop as one system: peers are accepted in the order in which
they come, none waits unnoticed, and the event loop makes a run of its own. One `accept4`
that fails ends the service; what the listener accepts from then on comes from others. -/
namespace ShipNet

namespace NetworkEventLoop
open Fallible EpollEventLoop

variable {κ : Type} {network : ConnectionObject κ} {l next : NetworkEventLoop κ}

/-! ### How many connections were created -/

theorem readConnection_created {event : Readiness} {fate : Fate}
    (ran : l.readConnection network event = .ok (fate, next)) : next.created = l.created := by
  unfold NetworkEventLoop.readConnection at ran
  split at ran
  · cases ran
  · split at ran
    · cases ran
    · split at ran
      · obtain ⟨mid, deleted, same⟩ := returns_of_bind ran
        cases same
        rw [delete_ok deleted]
      · cases ran
        rfl

theorem forEvents_created {disconnected : Bool} {events : List Readiness} {fates : List Fate}
    (ran : NetworkEventLoop.forEvents network disconnected events l = .ok (fates, next)) :
    next.created = l.created := by
  refine forEvents_keeps (fun next => next.created = l.created) ?_ ?_ rfl ran
  · intro event _ before after same deleted
    rw [delete_ok deleted]
    exact same
  · intro event _ before after fate same read
    exact (readConnection_created read).trans same

theorem accept_created {connection : κ} {unread : List UInt8} {added : Bool}
    (accepted : l.accept network connection unread added = .ok next) : next.created = l.created + 1 := by
  unfold NetworkEventLoop.accept at accepted
  split at accepted
  · cases accepted
    rfl
  · rw [delete_ok accepted]

/-- Only `Accept` creates a connection. -/
theorem step_created {input : Input κ} {fates : List Fate}
    (others : ∀ connection unread added, input ≠ .accept connection unread added)
    (stepped : step network l input = .ok (next, fates)) : next.created = l.created := by
  cases input with
  | accept connection unread added => exact absurd rfl (others connection unread added)
  | arrive address bytes =>
    cases stepped
    rfl
  | act address change =>
    cases stepped
    rfl
  | wait disconnected events =>
    obtain ⟨⟨served, mid⟩, ran, same⟩ := returns_of_bind stepped
    cases same
    have kept := forEvents_created ran
    exact kept

end NetworkEventLoop

namespace EpollListener.Service
open Fallible DescriptorTable

variable {κ π : Type} {network : ConnectionObject κ} {s next : Service κ π}

/-! ### What a service keeps -/

/-- All peers were accepted in the order in which they came, up to those that wait. Of
these the listener will hear, or it is about to accept them. -/
structure Noticed (s : Service κ π) : Prop where
  complete : s.accepted ++ s.backlog = s.arrived
  noticed : s.backlog ≠ [] → s.ready = true ∨ s.control = .accepting

/-- The socket and the epoll instance are open, and events are about the socket. -/
structure Opened (s : Service κ π) : Prop extends s.Noticed where
  apart : s.socketFile ≠ s.epollFile
  listening : s.Listening
  polled : s.table.Holds s.listener.epollFileDescriptor s.epollFile
  event : s.control = .accepting → s.event = s.listener.socketFileDescriptor
  own : s.strangers = 0

/-- They are not open, and will never be. -/
structure Shut (s : Service κ π) : Prop where
  socketGone : s.table.Gone s.socketFile
  epollGone : s.table.Gone s.epollFile
  empty : s.backlog = []

theorem Shut.deaf (shut : s.Shut) : ¬ s.Listening := shut.socketGone.2 _

/-- An `accept4` fails, and not because no peer waits. -/
def Fails : Input κ π → Prop
  | .accept4 (.failed errno) => errno ≠ eagain
  | .accept4 (.received _ _ _ _) | .connect _ | .wake _ | .opens _ | .closes _ | .loop _ => False

/-- The input turns away no peer: none that waits, and none that comes. -/
def Welcomes (s : Service κ π) : Input κ π → Prop
  | .accept4 (.failed errno) => errno = eagain ∨ s.backlog = []
  | .connect _ => s.Listening
  | .accept4 (.received _ _ _ _) | .wake _ | .opens _ | .closes _ | .loop _ => True

/-- Nothing is reported to the listener but by its own epoll instance. -/
def Own (s : Service κ π) : Input κ π → Prop
  | .wake _ => s.table.Holds s.listener.epollFileDescriptor s.epollFile
  | .connect _ | .accept4 _ | .opens _ | .closes _ | .loop _ => True

/-! ### Steps -/

private theorem kept_apart {number other : Int} {file : Nat} (holds : s.table.Holds number file)
    (others : ¬ s.table.Holds other file) : (s.table.close other).Holds number file := by
  refine holds.close ?_
  rintro rfl
  exact others holds

/-- A step of an open service leaves it open and welcomes every peer, or it ends it. -/
theorem Opened.step (opened : s.Opened) {input : Input κ π} {output : Unit} (possible : s.Possible network input)
    (stepped : s.step network input = .ok (next, output)) :
    (¬ Fails input ∧ next.Opened ∧ s.Welcomes input) ∨
      (Fails input ∧ next.Shut ∧ next.accepted = s.accepted ∧ next.arrived = s.arrived ∧
        next.control = .waiting ∧ next.strangers = 0) := by
  obtain ⟨⟨complete, noticed⟩, apart, listening, polled, event, own⟩ := opened
  cases input with
  | connect peer =>
    have taken : s.step network (.connect peer) = .ok ({ s with
        backlog := s.backlog ++ [peer], ready := true, arrived := s.arrived ++ [peer] }, ()) := if_pos listening
    cases taken.symm.trans stepped
    refine .inl ⟨id, ⟨⟨?_, fun _ => .inl rfl⟩, apart, listening, polled, event, own⟩, listening⟩
    show s.accepted ++ (s.backlog ++ [peer]) = s.arrived ++ [peer]
    rw [← List.append_assoc, complete]
  | wake fd =>
    cases stepped
    have registered := (possible.2 polled).2
    exact .inl ⟨id, ⟨⟨complete, fun _ => .inr rfl⟩, apart, listening, polled, fun _ => registered, own⟩, trivial⟩
  | accept4 answer =>
    obtain ⟨after, round, same⟩ := returns_of_bind stepped
    cases same
    cases answer with
    | received number connection unread added =>
      obtain ⟨accepting, some_, -, free⟩ := possible
      obtain ⟨eventLoop, -, same⟩ := returns_of_bind round
      cases (if_pos listening).symm.trans same
      obtain ⟨peer, later, waiting⟩ := List.exists_cons_of_ne_nil (some_ listening)
      refine .inl ⟨id, ⟨⟨?_, fun _ => .inr accepting⟩, apart, listening.install free, polled.install free, event, own⟩,
        trivial⟩
      show s.accepted ++ s.backlog.head?.toList ++ s.backlog.tail = s.arrived
      rw [← complete, waiting, List.append_assoc]
      rfl
    | failed errno =>
      by_cases empty : errno = eagain
      · cases (if_pos empty).symm.trans round
        refine .inl ⟨fun fatal => fatal empty, ⟨⟨complete, ?_⟩, apart, listening, polled, ?_, own⟩, .inl empty⟩
        · exact fun some_ => absurd (possible.2 listening empty) some_
        · intro impossible
          cases impossible
      · cases (if_neg empty).symm.trans round
        have numbers : s.listener.epollFileDescriptor ≠ s.listener.socketFileDescriptor := by
          intro same
          rw [same] at polled
          exact apart (Option.some.inj (listening.symm.trans polled))
        have socketGone := (listening.gone).close s.listener.epollFileDescriptor
        have epollGone := (polled.close numbers).gone
        rw [← event possible.1] at socketGone epollGone
        refine .inr ⟨empty, ?_⟩
        have deaf : ¬ Listening { s with
            table := (s.table.close s.event).close s.listener.epollFileDescriptor, control := .waiting } :=
          socketGone.2 _
        rw [closed, if_neg deaf]
        exact ⟨⟨socketGone, epollGone, rfl⟩, rfl, rfl, rfl, own⟩
  | opens number =>
    cases stepped
    exact .inl ⟨id, ⟨⟨complete, noticed⟩, apart, listening.install possible.2, polled.install possible.2, event, own⟩,
      trivial⟩
  | closes number =>
    cases stepped
    exact .inl ⟨id, ⟨⟨complete, noticed⟩, apart, kept_apart listening possible.1, kept_apart polled possible.2, event,
      own⟩, trivial⟩
  | loop input =>
    obtain ⟨done, -, same⟩ := returns_of_bind stepped
    cases same
    exact .inl ⟨id, ⟨⟨complete, noticed⟩, apart, listening, polled, event, own⟩, trivial⟩

/-- After its end a service accepts none of its peers, and turns away all who come. -/
theorem Shut.step (shut : s.Shut) {input : Input κ π} {output : Unit}
    (stepped : s.step network input = .ok (next, output)) :
    next.Shut ∧ next.accepted = s.accepted ∧ ((s.Welcomes input ∧ next.arrived = s.arrived) ∨
      (¬ s.Welcomes input ∧ ∃ peer, next.arrived = s.arrived ++ [peer])) := by
  have deaf := shut.deaf
  obtain ⟨socketGone, epollGone, empty⟩ := shut
  cases input with
  | connect peer =>
    have taken : s.step network (.connect peer) = .ok ({ s with arrived := s.arrived ++ [peer] }, ()) := if_neg deaf
    cases taken.symm.trans stepped
    exact ⟨⟨socketGone, epollGone, empty⟩, rfl, .inr ⟨deaf, peer, rfl⟩⟩
  | wake fd =>
    cases stepped
    exact ⟨⟨socketGone, epollGone, empty⟩, rfl, .inl ⟨trivial, rfl⟩⟩
  | accept4 answer =>
    obtain ⟨after, round, same⟩ := returns_of_bind stepped
    cases same
    cases answer with
    | received number connection unread added =>
      obtain ⟨eventLoop, -, same⟩ := returns_of_bind round
      cases (if_neg deaf).symm.trans same
      exact ⟨⟨socketGone.install number, epollGone.install number, empty⟩, rfl, .inl ⟨trivial, rfl⟩⟩
    | failed errno =>
      by_cases again : errno = eagain
      · cases (if_pos again).symm.trans round
        exact ⟨⟨socketGone, epollGone, empty⟩, rfl, .inl ⟨.inl again, rfl⟩⟩
      · cases (if_neg again).symm.trans round
        have gone {file : Nat} (before : s.table.Gone file) :=
          (before.close s.event).close s.listener.epollFileDescriptor
        have deafStill : ¬ Listening { s with
            table := (s.table.close s.event).close s.listener.epollFileDescriptor, control := .waiting } :=
          (gone socketGone).2 _
        rw [closed, if_neg deafStill]
        exact ⟨⟨gone socketGone, gone epollGone, rfl⟩, rfl, .inl ⟨.inr empty, rfl⟩⟩
  | opens number =>
    cases stepped
    exact ⟨⟨socketGone.install number, epollGone.install number, empty⟩, rfl, .inl ⟨trivial, rfl⟩⟩
  | closes number =>
    cases stepped
    exact ⟨⟨socketGone.close number, epollGone.close number, empty⟩, rfl, .inl ⟨trivial, rfl⟩⟩
  | loop input =>
    obtain ⟨done, -, same⟩ := returns_of_bind stepped
    cases same
    exact ⟨⟨socketGone, epollGone, empty⟩, rfl, .inl ⟨trivial, rfl⟩⟩

theorem closed_kept (s : Service κ π) : s.closed.eventLoop = s.eventLoop ∧ s.closed.accepted = s.accepted ∧
    s.closed.strangers = s.strangers := by
  unfold closed
  split
  · exact ⟨rfl, rfl, rfl⟩
  · exact ⟨rfl, rfl, rfl⟩

/-- The peer that is accepted gets the connection with the next address, and so does a
stranger. -/
theorem step_counted {input : Input κ π} {output : Unit} (possible : s.Possible network input)
    (stepped : s.step network input = .ok (next, output))
    (counted : s.eventLoop.created = s.accepted.length + s.strangers) :
    next.eventLoop.created = next.accepted.length + next.strangers := by
  cases input with
  | connect peer =>
    simp only [Service.step] at stepped
    split at stepped
    · cases stepped
      exact counted
    · cases stepped
      exact counted
  | accept4 answer =>
    obtain ⟨after, round, same⟩ := returns_of_bind stepped
    cases same
    cases answer with
    | received number connection unread added =>
      obtain ⟨eventLoop, accepted, same⟩ := returns_of_bind round
      have created := NetworkEventLoop.accept_created accepted
      by_cases listening : s.Listening
      · cases (if_pos listening).symm.trans same
        obtain ⟨peer, later, waiting⟩ := List.exists_cons_of_ne_nil (possible.2.1 listening)
        show eventLoop.created = (s.accepted ++ s.backlog.head?.toList).length + s.strangers
        rw [created, waiting, counted]
        simp
        omega
      · cases (if_neg listening).symm.trans same
        show eventLoop.created = s.accepted.length + (s.strangers + 1)
        rw [created, counted, Nat.add_assoc]
    | failed errno =>
      by_cases empty : errno = eagain
      · cases (if_pos empty).symm.trans round
        exact counted
      · cases (if_neg empty).symm.trans round
        obtain ⟨eventLoop, accepted, strangers⟩ := closed_kept { s with
          table := (s.table.close s.event).close s.listener.epollFileDescriptor, control := .waiting }
        rw [eventLoop, accepted, strangers]
        exact counted
  | wake fd | opens number | closes number =>
    cases stepped
    exact counted
  | loop input =>
    obtain ⟨done, ran, same⟩ := returns_of_bind stepped
    cases same
    exact (NetworkEventLoop.step_created possible.1 ran).trans counted

/-- A listener that waits accepts nobody before something is reported to it. -/
theorem waiting_step (waiting : s.control = .waiting) {input : Input κ π} {output : Unit}
    (silent : ∀ fd, input ≠ .wake fd) (possible : s.Possible network input)
    (stepped : s.step network input = .ok (next, output)) :
    next.control = .waiting ∧ next.strangers = s.strangers := by
  cases input with
  | wake fd => exact absurd rfl (silent fd)
  | connect peer =>
    simp only [Service.step] at stepped
    split at stepped
    · cases stepped
      exact ⟨waiting, rfl⟩
    · cases stepped
      exact ⟨waiting, rfl⟩
  | accept4 answer =>
    have accepting : s.control = .accepting := by
      cases answer with
      | received number connection unread added => exact possible.1
      | failed errno => exact possible.1
    cases waiting.symm.trans accepting
  | opens number | closes number =>
    cases stepped
    exact ⟨waiting, rfl⟩
  | loop input =>
    obtain ⟨done, -, moved⟩ := returns_of_bind stepped
    cases moved
    exact ⟨waiting, rfl⟩

/-! ### Runs -/

/-- What the event loop makes of an input. -/
def loopInput : Input κ π → Option (NetworkEventLoop.Input κ)
  | .accept4 (.received _ connection unread added) => some (.accept connection unread added)
  | .loop input => some input
  | .accept4 (.failed _) | .connect _ | .wake _ | .opens _ | .closes _ => none

theorem step_loop {input : Input κ π} {output : Unit} (possible : s.Possible network input)
    (stepped : s.step network input = .ok (next, output)) :
    (loopInput input = none ∧ next.eventLoop = s.eventLoop) ∨
      ∃ moved, loopInput input = some moved ∧ s.eventLoop.Possible network moved ∧
        Returns (s.eventLoop.step network moved) fun out => out.1 = next.eventLoop := by
  cases input with
  | connect peer =>
    simp only [Service.step] at stepped
    split at stepped
    · cases stepped
      exact .inl ⟨rfl, rfl⟩
    · cases stepped
      exact .inl ⟨rfl, rfl⟩
  | accept4 answer =>
    obtain ⟨after, round, same⟩ := returns_of_bind stepped
    cases same
    cases answer with
    | received number connection unread added =>
      obtain ⟨eventLoop, accepted, same⟩ := returns_of_bind round
      have moved : next.eventLoop = eventLoop := by
        dsimp only at same
        split at same
        · cases same
          rfl
        · cases same
          rfl
      refine .inr ⟨_, rfl, trivial, (eventLoop, []), ?_, moved.symm⟩
      rw [NetworkEventLoop.step, accepted]
      rfl
    | failed errno =>
      by_cases empty : errno = eagain
      · cases (if_pos empty).symm.trans round
        exact .inl ⟨rfl, rfl⟩
      · cases (if_neg empty).symm.trans round
        exact .inl ⟨rfl, (closed_kept _).1⟩
  | wake fd | opens number | closes number =>
    cases stepped
    exact .inl ⟨rfl, rfl⟩
  | loop input =>
    obtain ⟨done, ran, same⟩ := returns_of_bind stepped
    cases same
    exact .inr ⟨input, rfl, possible.2, done, ran, rfl⟩

/-- The event loop of a service makes a run of its own. -/
theorem run_loop {inputs : List (Input κ π)} {final : Service κ π × List Unit}
    (possible : Transition.Meets (step network) (Possible network) s inputs)
    (ran : Transition.run (step network) s inputs = .ok final) :
    Transition.Meets (NetworkEventLoop.step network) (NetworkEventLoop.Possible network) s.eventLoop
      (inputs.filterMap loopInput) ∧
    Returns (Transition.run (NetworkEventLoop.step network) s.eventLoop (inputs.filterMap loopInput)) fun out =>
      out.1 = final.1.eventLoop := by
  induction inputs generalizing s final with
  | nil =>
    cases ran
    exact ⟨trivial, (s.eventLoop, []), rfl, rfl⟩
  | cons input inputs ih =>
    obtain ⟨⟨next, output⟩, stepped, rest⟩ := returns_of_bind ran
    obtain ⟨⟨last, outputs⟩, further, same⟩ := returns_of_bind rest
    cases same
    obtain ⟨meets, later⟩ := ih (possible.2 next output stepped) further
    rcases step_loop possible.1 stepped with ⟨none_, same⟩ | ⟨moved, taken, possibleNow, ⟨mid, fates⟩, ranNow, rfl⟩
    · rw [List.filterMap_cons_none none_, ← same]
      exact ⟨meets, later⟩
    · rw [List.filterMap_cons_some taken]
      refine ⟨Transition.meets_cons possibleNow ranNow meets, ?_⟩
      obtain ⟨⟨end_, others⟩, ranLater, same⟩ := later
      refine ⟨(end_, fates :: others), ?_, same⟩
      simp only [Transition.run, ranNow, ranLater, ok_bind, pure_is_ok]

theorem bind_success {table : DescriptorTable} {answers : BindAnswers}
    (bound : (bind {} table answers).1.isSuccess = true) : answers.socket ≠ -1 ∧ answers.epollCreate ≠ -1 ∧
      (bind {} table answers).2 =
        (⟨answers.epollCreate, answers.socket⟩, (table.install answers.socket).install answers.epollCreate) := by
  unfold bind at bound ⊢
  grind [errnoErrorable, Errorable.isSuccess]

/-- After `Bind` has succeeded both descriptors are open. -/
theorem start_opened {table : DescriptorTable} {answers : BindAnswers} (possible : answers.Possible table)
    (bound : (bind {} table answers).1.isSuccess = true) : (start table answers : Service κ π).Opened := by
  obtain ⟨socket, epollCreate, done⟩ := bind_success bound
  have free := (possible.epollCreate.resolve_left epollCreate).2
  refine ⟨⟨rfl, fun some_ => absurd rfl some_⟩, Nat.ne_of_lt (Nat.lt_succ_self _), ?_, ?_, fun accepting => ?_, rfl⟩
  · show (bind {} table answers).2.2.Holds (bind {} table answers).2.1.socketFileDescriptor table.opened
    rw [done]
    exact (table.install_holds answers.socket).install free
  · show (bind {} table answers).2.2.Holds (bind {} table answers).2.1.epollFileDescriptor (table.opened + 1)
    rw [done]
    exact install_holds _ _
  · cases accepting

/-- What holds in every state of a service. -/
structure Stands (s : Service κ π) : Prop where
  state : s.Opened ∨ s.Shut
  created : s.eventLoop.created = s.accepted.length + s.strangers
  inOrder : s.accepted <+: s.arrived

theorem Stands.step (stands : s.Stands) {input : Input κ π} {output : Unit} (possible : s.Possible network input)
    (stepped : s.step network input = .ok (next, output)) :
    next.Stands ∧ (s.Noticed → (next.Noticed ↔ s.Welcomes input)) := by
  have created := step_counted possible stepped stands.created
  rcases stands.state with opened | shut
  · rcases opened.step possible stepped with ⟨-, opened, welcomes⟩ | ⟨fails, shut, accepted, arrived, -, -⟩
    · refine ⟨⟨.inl opened, created, ⟨next.backlog, opened.complete⟩⟩, fun _ => ?_⟩
      exact iff_of_true opened.toNoticed welcomes
    · refine ⟨⟨.inr shut, created, ?_⟩, fun noticed => ?_⟩
      · rw [accepted, arrived]
        exact stands.inOrder
      · have welcomes : s.Welcomes input ↔ s.backlog = [] := by
          cases input with
          | accept4 answer =>
            cases answer with
            | received number connection unread added => exact absurd fails id
            | failed errno => exact or_iff_right fails
          | connect peer | wake fd | opens number | closes number | loop input => exact absurd fails id
        rw [welcomes]
        constructor
        · intro noticedNext
          have all := noticedNext.complete
          rw [shut.empty, List.append_nil, accepted, arrived, ← noticed.complete] at all
          exact List.self_eq_append_right.mp all
        · intro empty
          refine ⟨?_, fun some_ => absurd shut.empty some_⟩
          rw [shut.empty, accepted, arrived, ← noticed.complete, empty]
  · obtain ⟨shutNext, accepted, turned⟩ := shut.step stepped
    refine ⟨⟨.inr shutNext, created, ?_⟩, fun noticed => ?_⟩
    · rcases turned with ⟨-, arrived⟩ | ⟨-, peer, arrived⟩
      · rw [accepted, arrived]
        exact stands.inOrder
      · rw [accepted, arrived]
        exact stands.inOrder.trans (List.prefix_append _ _)
    · have before := noticed.complete
      rw [shut.empty, List.append_nil] at before
      rcases turned with ⟨welcomes, arrived⟩ | ⟨refused, peer, arrived⟩
      · refine iff_of_true ⟨?_, fun some_ => absurd shutNext.empty some_⟩ welcomes
        rw [shutNext.empty, List.append_nil, accepted, arrived, before]
      · refine iff_of_false (fun noticedNext => ?_) refused
        have all := noticedNext.complete
        rw [shutNext.empty, List.append_nil, accepted, arrived, before] at all
        exact absurd (List.self_eq_append_right.mp all) (List.cons_ne_nil _ _)

theorem start_stands {table : DescriptorTable} {answers : BindAnswers} (possible : answers.Possible table)
    (bound : (bind {} table answers).1.isSuccess = true) : (start table answers : Service κ π).Stands :=
  ⟨.inl (start_opened possible bound), rfl, List.nil_prefix⟩

/-- In all states of a run every peer that has come was accepted, in its turn, or waits and
the listener will hear of it, exactly if no `accept4` fails while a peer waits and no peer
comes after one has failed. -/
theorem peers_noticed_iff (network : ConnectionObject κ) (table : DescriptorTable) (answers : BindAnswers)
    (inputs : List (Input κ π)) (final : Service κ π × List Unit) (answerable : answers.Possible table)
    (bound : (bind {} table answers).1.isSuccess = true)
    (possible : Transition.Meets (step network) (Possible network) (start table answers) inputs)
    (ran : Transition.run (step network) (start table answers) inputs = .ok final) :
    (∀ earlier later reached, inputs = earlier ++ later →
      Transition.run (step network) (start table answers) earlier = .ok reached → reached.1.Noticed) ↔
    Transition.Meets (step network) Welcomes (start table answers) inputs := by
  refine holds_throughout_iff Stands Noticed ?_ (start_stands answerable bound)
    (start_opened answerable bound).toNoticed possible ran
  intro s input next output stands possible stepped
  exact stands.step possible stepped

/-- The calls of `Bind` succeed. -/
def succeeding : BindAnswers where
  socket := 3
  ioctl := true
  bind := true
  listen := true
  epollCreate := 4
  epollCtl := true
  errno := 0

theorem succeeding_possible : succeeding.Possible noFiles :=
  ⟨.inr ⟨by simp [succeeding], rfl⟩, .inr ⟨by simp [succeeding], rfl⟩⟩

/-- Two peers come, the first is accepted, and then no more files can be opened. -/
def noMoreFiles : List (Input (Connection Unit Unit Unit) Nat) :=
  [.connect 0, .wake 3, .connect 1, .accept4 (.received 5 NetworkEventLoop.freshConnection [] true),
    .accept4 (.failed 24)]

theorem noMoreFiles_possible : Transition.Meets (step NetworkEventLoop.twoConnections)
    (Possible NetworkEventLoop.twoConnections) (start noFiles succeeding) noMoreFiles := by
  refine Transition.meets_cons trivial rfl ?_
  refine Transition.meets_cons ⟨rfl, fun _ => ⟨rfl, rfl⟩⟩ rfl ?_
  refine Transition.meets_cons trivial rfl ?_
  refine Transition.meets_cons ⟨rfl, fun _ => List.cons_ne_nil _ _, by simp, rfl⟩ rfl ?_
  exact Transition.meets_cons ⟨rfl, fun _ impossible => absurd impossible (by simp [eagain])⟩ rfl trivial

/-- The second peer is not accepted any more. -/
theorem second_peer_turned_away : ∃ final, Transition.run (step NetworkEventLoop.twoConnections)
      (start noFiles succeeding) noMoreFiles = .ok final ∧
    ¬ ∀ earlier later reached, noMoreFiles = earlier ++ later →
      Transition.run (step NetworkEventLoop.twoConnections) (start noFiles succeeding) earlier = .ok reached →
        reached.1.Noticed := by
  refine ⟨_, rfl, ?_⟩
  rw [peers_noticed_iff NetworkEventLoop.twoConnections noFiles succeeding noMoreFiles _ succeeding_possible rfl
    noMoreFiles_possible rfl]
  rintro ⟨-, first⟩
  obtain ⟨-, second⟩ := first _ _ rfl
  obtain ⟨-, third⟩ := second _ _ rfl
  obtain ⟨-, fourth⟩ := third _ _ rfl
  rcases (fourth _ _ rfl).1 with impossible | impossible
  · cases impossible
  · cases impossible

/-- A listener that hears of its own instance alone accepts no stranger: after the end of the
service it waits forever. -/
theorem own_run (opened : s.Opened) {inputs : List (Input κ π)} {final : Service κ π × List Unit}
    (possible : Transition.Meets (step network) (Possible network) s inputs)
    (own : Transition.Meets (step network) Own s inputs)
    (ran : Transition.run (step network) s inputs = .ok final) : final.1.strangers = 0 := by
  have kept : final.1.strangers = 0 ∧ (final.1.Opened ∨ final.1.Shut ∧ final.1.control = .waiting) := by
    refine Transition.run_ok_meets (fun mid => mid.strangers = 0 ∧ (mid.Opened ∨ mid.Shut ∧ mid.control = .waiting)) ?_
      ⟨opened.own, .inl opened⟩ (possible.and own) ran
    rintro mid input next output ⟨none_, opened | ⟨shut, waiting⟩⟩ ⟨possible, own⟩ stepped
    · rcases opened.step possible stepped with ⟨-, opened, -⟩ | ⟨-, shut, -, -, waiting, none_⟩
      · exact ⟨opened.own, .inl opened⟩
      · exact ⟨none_, .inr ⟨shut, waiting⟩⟩
    · have silent : ∀ fd, input ≠ .wake fd := by
        rintro fd rfl
        exact shut.epollGone.2 _ own
      obtain ⟨still, same⟩ := waiting_step waiting silent possible stepped
      exact ⟨same.trans none_, .inr ⟨(shut.step stepped).1, still⟩⟩
  exact kept.1

theorem Stands.sound (stands : s.Stands) (sound : s.eventLoop.Sound) {input : Input κ π}
    (possible : s.Possible network input) : Avoids Halt.dangling (s.step network input) fun out =>
      out.1.Stands ∧ out.1.eventLoop.Sound := by
  have stepped (ends : Avoids Halt.dangling (s.step network input) fun out => out.1.eventLoop.Sound) :
      Avoids Halt.dangling (s.step network input) fun out => out.1.Stands ∧ out.1.eventLoop.Sound := by
    cases taken : s.step network input with
    | error failure =>
      rw [taken] at ends
      exact ends
    | ok out => exact ⟨(stands.step possible taken).1, ends.of_ok taken⟩
  apply stepped
  cases input with
  | connect peer =>
    simp only [Service.step]
    split
    · exact sound
    · exact sound
  | accept4 answer =>
    cases answer with
    | received number connection unread added =>
      have round : Avoids Halt.dangling (s.acceptRound network (.received number connection unread added))
          fun next => next.eventLoop.Sound := by
        refine (sound.accept connection unread added).bind fun next kept => ?_
        by_cases listening : s.Listening
        · simp only [if_pos listening]
          exact kept.1
        · simp only [if_neg listening]
          exact kept.1
      exact round.bind fun next kept => kept
    | failed errno =>
      simp only [Service.step, acceptRound]
      split
      · exact sound
      · show (closed _).eventLoop.Sound
        rw [(closed_kept _).1]
        exact sound
  | wake fd | opens number | closes number => exact sound
  | loop input => exact (sound.step possible.2).bind fun out kept => kept.1

/-- After the end of the service nothing brings it back. -/
theorem shut_run (shut : s.Shut) {inputs : List (Input κ π)} {final : Service κ π × List Unit}
    (ran : Transition.run (step network) s inputs = .ok final) :
    final.1.Shut ∧ final.1.accepted = s.accepted := by
  obtain ⟨last, outputs⟩ := final
  refine Transition.run_ok_keeps (fun mid => mid.Shut ∧ mid.accepted = s.accepted) ?_ ⟨shut, rfl⟩
    (fun _ _ => trivial) ran
  rintro mid input next output ⟨shut, same⟩ - stepped
  obtain ⟨shutNext, accepted, -⟩ := shut.step stepped
  exact ⟨shutNext, accepted.trans same⟩

/-- As long as nothing is reported to it, a listener that waits accepts nobody. -/
theorem waiting_run (waiting : s.control = .waiting) {inputs : List (Input κ π)} (silent : ∀ fd, .wake fd ∉ inputs)
    {final : Service κ π × List Unit} (possible : Transition.Meets (step network) (Possible network) s inputs)
    (ran : Transition.run (step network) s inputs = .ok final) : final.1.strangers = s.strangers := by
  have meets : Transition.Meets (step network)
      (fun mid input => (∀ fd, input ≠ .wake fd) ∧ Possible network mid input) s inputs := by
    refine possible.and_forall ?_
    rintro input member fd rfl
    exact silent fd member
  have kept : final.1.control = .waiting ∧ final.1.strangers = s.strangers := by
    refine Transition.run_ok_meets (fun mid => mid.control = .waiting ∧ mid.strangers = s.strangers) ?_ ⟨waiting, rfl⟩
      meets ran
    rintro mid input next output ⟨waiting, same⟩ ⟨silent, possible⟩ stepped
    obtain ⟨still, none_⟩ := waiting_step waiting silent possible stepped
    exact ⟨still, none_.trans same⟩
  exact kept.2

theorem stands_run (stands : s.Stands) {inputs : List (Input κ π)} {final : Service κ π × List Unit}
    (possible : Transition.Meets (step network) (Possible network) s inputs)
    (ran : Transition.run (step network) s inputs = .ok final) : final.1.Stands := by
  refine Transition.run_ok_meets Stands ?_ stands possible ran
  intro s input next output stands possible stepped
  exact (stands.step possible stepped).1

/-- The first `accept4` that fails, for whatever reason, ends the service: the socket and the
epoll instance stay closed, whatever the process opens under their numbers, and the peers
that wait and all who come later are never accepted. What the listener accepts from then on
are strangers, and nobody before something under its numbers is reported to it. -/
theorem failed_accept_ends_service (network : ConnectionObject κ) (table : DescriptorTable) (answers : BindAnswers)
    (earlier later : List (Input κ π)) (reached final : Service κ π × List Unit) (errno : Nat)
    (answerable : answers.Possible table) (bound : (bind {} table answers).1.isSuccess = true)
    (possible : Transition.Meets (step network) (Possible network) (start table answers) earlier)
    (reaches : Transition.run (step network) (start table answers) earlier = .ok reached) (alive : reached.1.Listening)
    (fatal : errno ≠ eagain)
    (further : Transition.Meets (step network) (Possible network) reached.1 (.accept4 (.failed errno) :: later))
    (ran : Transition.run (step network) reached.1 (.accept4 (.failed errno) :: later) = .ok final) :
    final.1.accepted = reached.1.accepted ∧
      final.1.eventLoop.created = reached.1.eventLoop.created + final.1.strangers ∧
      ((∀ fd, .wake fd ∉ later) → final.1.strangers = 0) ∧
      ∀ number, ¬ final.1.table.Holds number final.1.socketFile ∧ ¬ final.1.table.Holds number final.1.epollFile := by
  have stands : reached.1.Stands := stands_run (start_stands answerable bound) possible reaches
  have standsFinal := stands_run stands further ran
  obtain ⟨⟨next, output⟩, stepped, rest⟩ := returns_of_bind ran
  obtain ⟨⟨last, outputs⟩, ranLater, same⟩ := returns_of_bind rest
  cases same
  have opened : reached.1.Opened := stands.state.resolve_right fun shut => shut.deaf alive
  have created := stands.created
  rw [opened.own, Nat.add_zero] at created
  rcases opened.step further.1 stepped with ⟨goes, -⟩ | ⟨-, shut, accepted, -, waiting, own⟩
  · exact absurd fatal goes
  · obtain ⟨shutFinal, acceptedFinal⟩ := shut_run shut ranLater
    have same := acceptedFinal.trans accepted
    refine ⟨same, ?_, ?_, fun number => ⟨shutFinal.socketGone.2 number, shutFinal.epollGone.2 number⟩⟩
    · rw [standsFinal.created, same, created]
    · intro silent
      exact (waiting_run waiting silent (further.2 next output stepped) ranLater).trans own

/-- The numbers are used again, a peer comes, and another one to the socket that has the number. -/
def reopened : List (Input (Connection Unit Unit Unit) Nat) :=
  [.opens 3, .opens 4, .connect 1, .wake 3, .accept4 (.received 5 NetworkEventLoop.freshConnection [] true)]

/-- The service ends at once, and goes on with a stranger. -/
theorem service_ends_before_its_peer : ∃ final, Transition.run (step NetworkEventLoop.twoConnections)
      (start noFiles succeeding : Service _ Nat) [.connect 0, .wake 3] = .ok final ∧
    ∃ last, Transition.run (step NetworkEventLoop.twoConnections) final.1 (.accept4 (.failed 24) :: reopened) =
        .ok last ∧
      last.1.accepted = final.1.accepted ∧ last.1.eventLoop.created = final.1.eventLoop.created + last.1.strangers ∧
      ((∀ fd, .wake fd ∉ reopened) → last.1.strangers = 0) ∧
      ∀ number, ¬ last.1.table.Holds number last.1.socketFile ∧ ¬ last.1.table.Holds number last.1.epollFile := by
  refine ⟨_, rfl, _, rfl, ?_⟩
  refine failed_accept_ends_service NetworkEventLoop.twoConnections noFiles succeeding [.connect 0, .wake 3]
    reopened _ _ 24 succeeding_possible rfl ?_ rfl rfl (by simp [eagain]) ?_ rfl
  · refine Transition.meets_cons trivial rfl ?_
    exact Transition.meets_cons ⟨rfl, fun _ => ⟨rfl, rfl⟩⟩ rfl trivial
  · refine Transition.meets_cons ⟨rfl, fun _ impossible => absurd impossible (by simp [eagain])⟩ rfl ?_
    refine Transition.meets_cons ⟨by simp, rfl⟩ rfl ?_
    refine Transition.meets_cons ⟨by simp, rfl⟩ rfl ?_
    refine Transition.meets_cons trivial rfl ?_
    refine Transition.meets_cons ⟨rfl, fun own => absurd own (by decide)⟩ rfl ?_
    exact Transition.meets_cons ⟨rfl, fun own => absurd own (by decide), by simp, rfl⟩ rfl trivial

end EpollListener.Service

end ShipNet
