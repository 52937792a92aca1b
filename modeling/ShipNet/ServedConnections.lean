import ShipNet.Avoidance
import ShipNet.EventDelivery
import ShipNet.NetworkEventLoop

/-! What an event loop does to its connections, whatever the peers, the listener and the
tasks do: it uses none that is deleted and deletes none twice, it hands over what the
peers send in its order, and what it has not read is reported to it again, as long as no
event is dropped. -/
namespace ShipNet.EpollEventLoop
open Fallible

variable {κ : Type} {network : ConnectionClass κ} {reading : Reading κ}

/-- The connection is closed, or the peer has no more. -/
def Stuck (network : ConnectionClass κ) (reading : Reading κ) : Prop :=
  (network.readWriteCloser reading.connection).closed = true ∨
    (reading.socket.pending = [] ∧ reading.socket.tail = .endOfFile)

/-- What a round of `while (true)` can do. -/
inductive RoundCases (network : ConnectionClass κ) (reading : Reading κ) :
    Round (Reading κ) (Fate × Reading κ) → Prop where
  /-- It reads no bytes, and no later round will. -/
  | nothing {next : κ} (stuck : Stuck network reading)
      (handled : network.handleNewBytes reading.connection [] = .ok next) :
      RoundCases network reading (.again { reading with connection := next })
  | page {page : List UInt8} {socket : Socket} {next : κ}
      (opened : (network.readWriteCloser reading.connection).closed = false)
      (pending : reading.socket.pending = page :: socket.pending) (tail : socket.tail = reading.socket.tail)
      (handled : network.handleNewBytes reading.connection page = .ok next) :
      RoundCases network reading (.again ⟨next, socket, reading.errno⟩)
  | last (opened : (network.readWriteCloser reading.connection).closed = false)
      (drained : reading.socket.pending = []) (more : reading.socket.tail ≠ .endOfFile) (errno : Nat) :
      RoundCases network reading (.leave (reading.socket.tail.fate, { reading with errno := errno }))

theorem readRound_cases {out : Round (Reading κ) (Fate × Reading κ)} (ran : readRound network reading = .ok out) :
    RoundCases network reading out := by
  have handles {page : List UInt8} (next : Reading κ)
      (ran : (do pure (.again { next with connection := ← network.handleNewBytes reading.connection page }) :
        Exec (Round (Reading κ) (Fate × Reading κ))) = .ok out) :
      ∃ connection, network.handleNewBytes reading.connection page = .ok connection ∧
        out = .again { next with connection := connection } := by
    obtain ⟨connection, handled, same⟩ := returns_of_bind ran
    exact ⟨connection, handled, (Except.ok.inj same).symm⟩
  cases opened : (network.readWriteCloser reading.connection).closed with
  | true =>
    simp only [readRound, UnixReadWriteCloser.read, opened, Bool.not_true, Bool.false_eq_true, if_false,
      success_typeOrdinal, if_true] at ran
    obtain ⟨connection, handled, rfl⟩ := handles reading ran
    exact .nothing (.inl opened) handled
  | false =>
    cases pending : reading.socket.pending with
    | cons page later =>
      obtain ⟨rest, answered, remaining, sameTail⟩ := Socket.read_some pending
      simp only [readRound, UnixReadWriteCloser.read, opened, Bool.not_false, if_true, answered,
        success_typeOrdinal] at ran
      obtain ⟨connection, handled, rfl⟩ := handles ⟨reading.connection, rest, reading.errno⟩ ran
      exact .page opened (remaining ▸ pending) sameTail handled
    | nil =>
      have answered := Socket.read_none pending
      cases tail : reading.socket.tail with
      | endOfFile =>
        simp only [readRound, UnixReadWriteCloser.read, opened, Bool.not_false, if_true, answered, tail,
          Tail.answer, success_typeOrdinal] at ran
        obtain ⟨connection, handled, rfl⟩ := handles reading ran
        exact .nothing (.inr ⟨pending, tail⟩) handled
      | wouldBlock =>
        simp [readRound, UnixReadWriteCloser.read, opened, answered, tail, Tail.answer, errnoErrorable] at ran
        have last := RoundCases.last opened pending (by simp [tail]) eagain
        rw [tail] at last
        exact ran ▸ last
      | failing errno fatal =>
        simp [readRound, UnixReadWriteCloser.read, opened, answered, tail, Tail.answer, errnoErrorable, fatal] at ran
        have last := RoundCases.last opened pending (by simp [tail]) errno
        rw [tail] at last
        exact ran ▸ last

/-- A loop over one connection that ends has handed over all pages, and the connection is
open. -/
theorem readLoop_ok {network : ConnectionClass κ} {reading after : Reading (Recorded κ)} {fate : Fate}
    (ran : readLoop (recording network) reading = .ok (fate, after)) :
    after.connection.handed = reading.connection.handed ++ reading.socket.pending.flatten ∧
      fate = reading.socket.tail.fate ∧ reading.socket.tail ≠ .endOfFile ∧
      (network.readWriteCloser after.connection.object).closed = false := by
  unfold readLoop at ran
  generalize reading.socket.pending.length + 1 = fuel at ran
  induction fuel generalizing reading with
  | zero => cases ran
  | succ fuel ih =>
    obtain ⟨out, stepped, rest⟩ := returns_of_bind ran
    cases readRound_cases stepped with
    | nothing stuck handled =>
      obtain ⟨object, -, same⟩ := returns_of_bind handled
      cases same
      obtain ⟨handed, further⟩ := ih rest
      exact ⟨handed.trans (by rw [List.append_nil]), further⟩
    | page opened pending tail handled =>
      obtain ⟨object, -, same⟩ := returns_of_bind handled
      cases same
      obtain ⟨handed, served, more, opened⟩ := ih rest
      rw [tail] at served more
      refine ⟨handed.trans ?_, served, more, opened⟩
      rw [pending, List.flatten_cons, List.append_assoc]
    | last opened drained more errno =>
      cases rest
      exact ⟨by rw [drained, List.flatten_nil, List.append_nil], rfl, more, opened⟩

end ShipNet.EpollEventLoop

namespace ShipNet.NetworkEventLoop
open Fallible EpollEventLoop

variable {κ : Type} {network : ConnectionObject κ} {l next : NetworkEventLoop κ} {address : Nat}

/-! ### One deletion, one read -/

/-- The connections are the live ones and the deleted ones, which are not the same, and a
live one has been handed what its peer has sent, up to what is unread. -/
structure Sound (l : NetworkEventLoop κ) : Prop where
  accounted : ∀ address, address < l.created ↔ l.live address ≠ none ∨ address ∈ l.deleted
  gone : ∀ address ∈ l.deleted, l.live address = none
  once : l.deleted.Nodup
  kept : ∀ address endpoint, l.live address = some endpoint →
    endpoint.connection.handed ++ endpoint.unread = endpoint.sent

/-- The two differ in these connections alone. -/
def Elsewhere (addresses : List Nat) (l next : NetworkEventLoop κ) : Prop :=
  ∀ other, other ∉ addresses → next.live other = l.live other

theorem Sound.put (sound : Sound l) {old : Endpoint κ} (new : Endpoint κ) (there : l.live address = some old)
    (kept : new.connection.handed ++ new.unread = new.sent) (errno : Nat) :
    Sound { l with live := Function.update l.live address (some new), errno := errno } := by
  refine ⟨?_, ?_, sound.once, ?_⟩
  · intro other
    rw [sound.accounted other]
    by_cases same : other = address
    · subst same
      simp [there]
    · simp [Function.update_of_ne same]
  · intro other deleted
    have gone := sound.gone other deleted
    have apart : other ≠ address := by
      rintro rfl
      rw [there] at gone
      cases gone
    exact (Function.update_of_ne apart ..).trans gone
  · intro other endpoint live
    have live : Function.update l.live address (some new) other = some endpoint := live
    by_cases same : other = address
    · subst same
      rw [Function.update_self] at live
      cases live
      exact kept
    · rw [Function.update_of_ne same] at live
      exact sound.kept other endpoint live

theorem Sound.delete (sound : Sound l) {endpoint : Endpoint κ} (there : l.live address = some endpoint) :
    Avoids Halt.dangling (l.delete network address) fun next =>
      Sound next ∧ next.live = Function.update l.live address none := by
  unfold NetworkEventLoop.delete
  rw [there]
  show Avoids Halt.dangling (if _ then _ else _) _
  split
  · refine ⟨⟨?_, ?_, ?_, ?_⟩, rfl⟩
    · intro other
      rw [sound.accounted other, List.mem_append, List.mem_singleton]
      by_cases same : other = address
      · subst same
        simp [there]
      · simp [same]
    · intro other deleted
      show Function.update l.live address none other = none
      rcases List.mem_append.mp deleted with before | now
      · by_cases same : other = address
        · rw [same, Function.update_self]
        · rw [Function.update_of_ne same]
          exact sound.gone other before
      · rw [List.mem_singleton.mp now, Function.update_self]
    · refine sound.once.append (List.nodup_singleton _) ?_
      rintro other before now
      cases List.mem_singleton.mp now
      have gone := sound.gone _ before
      rw [there] at gone
      cases gone
    · intro other left live
      have live : Function.update l.live address none other = some left := live
      by_cases same : other = address
      · rw [same, Function.update_self] at live
        cases live
      · rw [Function.update_of_ne same] at live
        exact sound.kept other left live
  · exact fun impossible => by cases impossible

/-- What the loop over one connection leaves at its address. -/
structure Read (network : ConnectionObject κ) (event : Readiness) (endpoint : Endpoint κ) (fate : Fate)
    (left : Option (Endpoint κ)) : Prop where
  served : fate = event.socket.tail.fate
  more : event.socket.tail ≠ .endOfFile
  left : if fate = Fate.deleted then left = none else ∃ after, left = some after ∧ after.unread = [] ∧
    Open network after.connection.object ∧
    after.connection.handed = endpoint.connection.handed ++ event.socket.pending.flatten

theorem Sound.readConnection (sound : Sound l) {event : Readiness} {endpoint : Endpoint κ}
    (there : l.live event.address = some endpoint)
    (brings : event.socket.pending.flatten = endpoint.unread ++ event.meanwhile) :
    Avoids Halt.dangling (l.readConnection network event) fun out => Sound out.2 ∧
      Elsewhere [event.address] l out.2 ∧ Read network event endpoint out.1 (out.2.live event.address) := by
  simp only [NetworkEventLoop.readConnection, there]
  split
  · exact fun impossible => by cases impossible
  · rename_i fate reading ran
    obtain ⟨handed, served, more, opened⟩ := readLoop_ok ran
    have handed : reading.connection.handed = endpoint.connection.handed ++ event.socket.pending.flatten := handed
    have soundNow := sound.put { endpoint with
      connection := reading.connection
      unread := []
      ready := !event.meanwhile.isEmpty
      sent := endpoint.sent ++ event.meanwhile } there (by
        rw [List.append_nil, handed, brings, ← List.append_assoc, sound.kept _ _ there]) reading.errno
    split
    · rename_i deleted
      refine (soundNow.delete (Function.update_self ..)).bind ?_
      rintro next ⟨soundNext, live⟩
      refine ⟨soundNext, ?_, served, more, ?_⟩
      · intro other apart
        rw [List.mem_singleton] at apart
        rw [live, Function.update_of_ne apart]
        exact Function.update_of_ne apart ..
      · rw [if_pos deleted, live, Function.update_self]
    · rename_i drained
      refine ⟨soundNow, ?_, served, more, ?_⟩
      · intro other apart
        rw [List.mem_singleton] at apart
        exact Function.update_of_ne apart ..
      · rw [if_neg drained]
        exact ⟨_, Function.update_self .., rfl, opened, handed⟩

/-! ### The events of one `epoll_wait` -/

/-- The event does not make the loop stop. -/
def passes (disconnected : Bool) (event : Readiness) : Bool :=
  event.rdhup || (!disconnected && event.socket.tail.fate = .drained)

/-- The events that the loop comes to. -/
def served (disconnected : Bool) : List Readiness → List Readiness
  | [] => []
  | event :: later => event :: if passes disconnected event then served disconnected later else []

/-- The events behind the one at which it stops. -/
def dropped (disconnected : Bool) : List Readiness → List Readiness
  | [] => []
  | event :: later => if passes disconnected event then dropped disconnected later else later

theorem served_dropped (disconnected : Bool) (events : List Readiness) :
    served disconnected events ++ dropped disconnected events = events := by
  induction events with
  | nil => rfl
  | cons event later ih =>
    simp only [served, dropped, List.cons_append]
    split
    · rw [ih]
    · rfl

theorem Read.passes {event : Readiness} {endpoint : Endpoint κ} {fate : Fate} {left : Option (Endpoint κ)}
    (read : Read network event endpoint fate left) (rdhup : event.rdhup = false) (disconnected : Bool) :
    passes disconnected event = !(if fate = .deleted then true else disconnected) := by
  rw [NetworkEventLoop.passes, rdhup, Bool.false_or, read.served]
  cases tail : event.socket.tail with
  | wouldBlock => simp [Tail.fate]
  | failing errno fatal => simp [Tail.fate]
  | endOfFile => exact absurd tail read.more

/-- A connection with an event whose bytes the socket brings. -/
def Brings (l : NetworkEventLoop κ) (event : Readiness) : Prop :=
  ∃ endpoint, l.live event.address = some endpoint ∧
    event.socket.pending.flatten = endpoint.unread ++ event.meanwhile

theorem Elsewhere.brings {addresses : List Nat} (elsewhere : Elsewhere addresses l next) {event : Readiness}
    (apart : event.address ∉ addresses) (brings : Brings l event) : Brings next event := by
  obtain ⟨endpoint, there, bytes⟩ := brings
  exact ⟨endpoint, (elsewhere _ apart).trans there, bytes⟩

/-- What the loop over these events leaves: those that it came to are deleted or read to
the end, and all others are as they were. -/
structure Served (disconnected : Bool) (events : List Readiness) (l next : NetworkEventLoop κ) : Prop where
  sound : Sound next
  elsewhere : Elsewhere ((served disconnected events).map Readiness.address) l next
  read : ∀ event ∈ served disconnected events, ∀ after, next.live event.address = some after → after.unread = []

theorem Served.first {disconnected : Bool} {event : Readiness} {later : List Readiness} {mid : NetworkEventLoop κ}
    (passed : passes disconnected event = true) (apart : event.address ∉ later.map Readiness.address)
    (elsewhere : Elsewhere [event.address] l mid)
    (read : ∀ after, mid.live event.address = some after → after.unread = [])
    (rest : Served disconnected later mid next) : Served disconnected (event :: later) l next := by
  have among : (served disconnected later).map Readiness.address ⊆ later.map Readiness.address := by
    conv_rhs => rw [← served_dropped disconnected later]
    exact List.map_subset _ (List.subset_append_left _ _)
  refine ⟨rest.sound, ?_, ?_⟩
  · intro other outside
    simp only [served, passed, if_true, List.map_cons, List.mem_cons, not_or] at outside
    exact (rest.elsewhere other outside.2).trans (elsewhere other (by simpa using outside.1))
  · intro event' member after live
    simp only [served, passed, if_true, List.mem_cons] at member
    rcases member with rfl | member
    · rw [rest.elsewhere _ fun inside => apart (among inside)] at live
      exact read after live
    · exact rest.read event' member after live

theorem Sound.forEvents (sound : Sound l) (disconnected : Bool) (events : List Readiness)
    (distinct : (events.map Readiness.address).Nodup) (brings : ∀ event ∈ events, Brings l event) :
    Avoids Halt.dangling (forEvents network disconnected events l) fun out =>
      Served disconnected events l out.2 := by
  induction events generalizing l with
  | nil => exact ⟨sound, fun _ _ => rfl, fun _ member => absurd member List.not_mem_nil⟩
  | cons event later ih =>
    obtain ⟨endpoint, there, bytes⟩ := brings event List.mem_cons_self
    rw [List.map_cons, List.nodup_cons] at distinct
    have further {mid : NetworkEventLoop κ} (elsewhere : Elsewhere [event.address] l mid) :
        ∀ event ∈ later, Brings mid event := by
      intro other member
      refine elsewhere.brings ?_ (brings other (List.mem_cons_of_mem _ member))
      intro same
      rw [List.mem_singleton] at same
      exact distinct.1 (same ▸ List.mem_map_of_mem member)
    unfold NetworkEventLoop.forEvents
    cases rdhup : event.rdhup with
    | true =>
      have passed : passes disconnected event = true := by simp [passes, rdhup]
      refine (sound.delete there).bind ?_
      rintro mid ⟨soundMid, live⟩
      have elsewhere : Elsewhere [event.address] l mid := by
        intro other apart
        rw [live, Function.update_of_ne (by simpa using apart)]
      refine (ih soundMid distinct.2 (further elsewhere)).bind ?_
      rintro ⟨fates, final⟩ rest
      refine rest.first passed distinct.1 elsewhere ?_
      intro after there
      rw [live, Function.update_self] at there
      cases there
    | false =>
      refine (sound.readConnection there bytes).bind ?_
      rintro ⟨fate, mid⟩ ⟨soundMid, elsewhere, read⟩
      have emptied (after : Endpoint κ) (live : mid.live event.address = some after) : after.unread = [] := by
        have left := read.left
        split at left
        · rw [left] at live
          cases live
        · obtain ⟨after', there, unread, -⟩ := left
          cases live.symm.trans there
          exact unread
      show Avoids Halt.dangling (if (if fate = .deleted then true else disconnected) then _ else _) _
      have stopping := read.passes rdhup disconnected
      cases stops : (if fate = .deleted then true else disconnected) with
      | true =>
        rw [stops, Bool.not_true] at stopping
        refine ⟨soundMid, ?_, ?_⟩
        · rw [served, stopping]
          exact elsewhere
        · intro event' member
          rw [served, stopping] at member
          cases List.mem_singleton.mp member
          exact emptied
      | false =>
        rw [stops, Bool.not_false] at stopping
        have quiet : disconnected = false := by
          split at stops
          · cases stops
          · exact stops
        rw [quiet] at ih stopping ⊢
        refine (ih soundMid distinct.2 (further elsewhere)).bind ?_
        rintro ⟨fates, final⟩ rest
        exact rest.first stopping distinct.1 elsewhere emptied

/-! ### The same loop without the other connections -/

theorem delete_ok (deleted : l.delete network address = .ok next) :
    next = { l with live := Function.update l.live address none, deleted := l.deleted ++ [address] } := by
  unfold NetworkEventLoop.delete at deleted
  split at deleted
  · cases deleted
  · split at deleted
    · cases deleted
      rfl
    · cases deleted

theorem readConnection_ok {event : Readiness} {fate : Fate} (ran : l.readConnection network event = .ok (fate, next)) :
    ∃ endpoint reading, l.live event.address = some endpoint ∧
      readLoop (recording network.toConnectionClass) ⟨endpoint.connection, event.socket, l.errno⟩ =
        .ok (fate, reading) ∧ next.errno = reading.errno ∧ Elsewhere [event.address] l next := by
  unfold NetworkEventLoop.readConnection at ran
  split at ran
  · cases ran
  · rename_i endpoint there
    split at ran
    · cases ran
    · rename_i fate' reading looped
      refine ⟨endpoint, reading, there, ?_⟩
      split at ran
      · obtain ⟨mid, deleted, same⟩ := returns_of_bind ran
        cases same
        cases delete_ok deleted
        refine ⟨looped, rfl, fun other apart => ?_⟩
        rw [List.mem_singleton] at apart
        exact (Function.update_of_ne apart ..).trans (Function.update_of_ne apart ..)
      · cases ran
        refine ⟨looped, rfl, fun other apart => ?_⟩
        rw [List.mem_singleton] at apart
        exact Function.update_of_ne apart ..

/-- What each deletion and each read keeps is kept over the batch. -/
theorem forEvents_keeps (inv : NetworkEventLoop κ → Prop) {disconnected : Bool} {events : List Readiness}
    {fates : List Fate}
    (deletes : ∀ event ∈ events, ∀ l next, inv l → l.delete network event.address = .ok next → inv next)
    (reads : ∀ event ∈ events, ∀ l next fate, inv l → l.readConnection network event = .ok (fate, next) → inv next)
    (start : inv l) (ran : NetworkEventLoop.forEvents network disconnected events l = .ok (fates, next)) :
    inv next := by
  induction events generalizing l disconnected fates with
  | nil =>
    cases ran
    exact start
  | cons event later ih =>
    obtain ⟨deletesFirst, deletesLater⟩ := List.forall_mem_cons.mp deletes
    obtain ⟨readsFirst, readsLater⟩ := List.forall_mem_cons.mp reads
    unfold NetworkEventLoop.forEvents at ran
    split at ran
    · obtain ⟨mid, deleted, rest⟩ := returns_of_bind ran
      obtain ⟨⟨others, last⟩, further, same⟩ := returns_of_bind rest
      cases same
      exact ih deletesLater readsLater (deletesFirst l mid start deleted) further
    · obtain ⟨⟨fate, mid⟩, read, rest⟩ := returns_of_bind ran
      have kept := readsFirst l mid fate start read
      by_cases stops : (if fate = .deleted then true else disconnected) = true
      · simp only [stops] at rest
        cases rest
        exact kept
      · rw [Bool.not_eq_true] at stops
        simp only [stops] at rest
        obtain ⟨⟨others, last⟩, further, same⟩ := returns_of_bind rest
        cases same
        exact ih deletesLater readsLater kept further

/-- The event, with the connection at its address, as the loop over one batch sees it. -/
def Seen (l : NetworkEventLoop κ) (event : Readiness) (seen : Event (Recorded κ)) : Prop :=
  seen.rdhup = event.rdhup ∧ seen.socket = event.socket ∧
    ∃ endpoint, l.live event.address = some endpoint ∧ seen.connection = endpoint.connection

theorem Elsewhere.seen {event : Readiness} (elsewhere : Elsewhere [event.address] l next) {later : List Readiness}
    {seen : List (Event (Recorded κ))} (apart : event.address ∉ later.map Readiness.address)
    (sees : List.Forall₂ (Seen l) later seen) : List.Forall₂ (Seen next) later seen := by
  induction sees with
  | nil => exact .nil
  | @cons other first later rest sees _ ih =>
    rw [List.map_cons, List.mem_cons, not_or] at apart
    obtain ⟨rdhup, socket, endpoint, there, same⟩ := sees
    refine .cons ⟨rdhup, socket, endpoint, ?_, same⟩ (ih apart.2)
    rw [elsewhere other.address (by simpa using Ne.symm apart.1), there]

/-- What becomes of the connections of a batch is what the loop over this batch alone
makes of them. -/
theorem forEvents_fates {disconnected : Bool} {events : List Readiness} {seen : List (Event (Recorded κ))}
    {fates : List Fate} (sees : List.Forall₂ (Seen l) events seen) (distinct : (events.map Readiness.address).Nodup)
    (ran : NetworkEventLoop.forEvents network disconnected events l = .ok (fates, next)) :
    EpollEventLoop.forEvents (recording network.toConnectionClass) disconnected l.errno seen = .ok fates := by
  induction events generalizing l disconnected fates seen with
  | nil =>
    cases sees
    cases ran
    rfl
  | cons event later ih =>
    obtain ⟨first, rest, saw, others, rfl⟩ := List.forall₂_cons_left_iff.mp sees
    obtain ⟨rdhup, socket, endpoint, there, same⟩ := saw
    rw [List.map_cons, List.nodup_cons] at distinct
    unfold NetworkEventLoop.forEvents at ran
    unfold EpollEventLoop.forEvents
    rw [rdhup, same, socket]
    split at ran
    · rename_i closing
      rw [if_pos closing]
      obtain ⟨mid, deleted, ran⟩ := returns_of_bind ran
      obtain ⟨⟨later', final⟩, ran, same⟩ := returns_of_bind ran
      cases same
      cases delete_ok deleted
      have elsewhere : Elsewhere [event.address] l
          { l with live := Function.update l.live event.address none, deleted := l.deleted ++ [event.address] } := by
        intro other apart
        exact Function.update_of_ne (by simpa using apart) ..
      rw [ih (elsewhere.seen distinct.1 others) distinct.2 ran]
      rfl
    · rename_i reading
      rw [if_neg reading]
      obtain ⟨⟨fate, mid⟩, read, ran⟩ := returns_of_bind ran
      obtain ⟨endpoint', after, there', looped, errno, elsewhere⟩ := readConnection_ok read
      cases there.symm.trans there'
      rw [looped, ok_bind]
      have goes : (if (if fate = .deleted then true else disconnected) = true then
          pure (fate :: later.map fun _ => .untouched, mid)
        else
          NetworkEventLoop.forEvents network (if fate = .deleted then true else disconnected) later mid >>=
            fun out => pure (fate :: out.1, out.2)) = Except.ok (fates, next) := ran
      show (if (if fate = .deleted then true else disconnected) = true then
          pure (fate :: rest.map fun _ => .untouched)
        else
          EpollEventLoop.forEvents _ (if fate = .deleted then true else disconnected) after.errno rest >>=
            fun fates => pure (fate :: fates)) = Except.ok fates
      generalize (if fate = .deleted then true else disconnected) = stops at goes
      cases stops with
      | true =>
        cases goes
        show Except.ok (fate :: rest.map fun _ => .untouched) = Except.ok (fate :: later.map fun _ => .untouched)
        rw [List.map_const', List.map_const', others.length_eq]
      | false =>
        obtain ⟨⟨later', final⟩, further, same⟩ := returns_of_bind goes
        cases same
        rw [← errno, ih (elsewhere.seen distinct.1 others) distinct.2 further]
        rfl

/-! ### Steps -/

/-- What a task or a peer does to the connection at an address. -/
def changed (address : Nat) (endpoint : Endpoint κ) : Input κ → Endpoint κ
  | .arrive other bytes => if other = address then { endpoint with
      unread := endpoint.unread ++ bytes, ready := endpoint.ready || !bytes.isEmpty, sent := endpoint.sent ++ bytes }
    else endpoint
  | .act other change => if other = address then { endpoint with
      connection := { endpoint.connection with object := change endpoint.connection.object } }
    else endpoint
  | .accept _ _ _ | .wait _ _ => endpoint

theorem Sound.start : Sound ({} : NetworkEventLoop κ) := by
  refine ⟨fun address => ?_, fun address deleted => absurd deleted List.not_mem_nil, List.nodup_nil, ?_⟩
  · simp
  · intro address endpoint impossible
    cases impossible

theorem Sound.take (sound : Sound l) (events : List Readiness) : Sound (l.take events) := by
  refine ⟨?_, ?_, sound.once, ?_⟩
  · intro address
    have counted := sound.accounted address
    simpa [NetworkEventLoop.take] using counted
  · intro address deleted
    simp only [NetworkEventLoop.take, sound.gone address deleted, Option.map_none]
  · intro address endpoint live
    obtain ⟨before, there, same⟩ := Option.map_eq_some_iff.mp live
    have kept := sound.kept address before there
    split at same
    · cases same
      exact kept
    · cases same
      exact kept

theorem Sound.accept (sound : Sound l) (connection : κ) (unread : List UInt8) (added : Bool) :
    Avoids Halt.dangling (l.accept network connection unread added) fun next =>
      Sound next ∧ Elsewhere [l.created] l next ∧
        ∀ endpoint, next.live l.created = some endpoint → endpoint.ready = !endpoint.unread.isEmpty := by
  have fresh : l.live l.created = none ∧ l.created ∉ l.deleted := by
    have outside := (sound.accounted l.created).not.mp (Nat.lt_irrefl _)
    push Not at outside
    exact outside
  let endpoint : Endpoint κ :=
    { connection := ⟨connection, []⟩, unread := unread, ready := !unread.isEmpty, sent := unread }
  let l' := { l with live := Function.update l.live l.created (some endpoint), created := l.created + 1 }
  have soundNow : Sound l' := by
    refine ⟨?_, ?_, sound.once, ?_⟩
    · intro address
      show address < l.created + 1 ↔ Function.update l.live l.created (some endpoint) address ≠ none ∨ _
      by_cases same : address = l.created
      · simp [same]
      · rw [Function.update_of_ne same, ← sound.accounted address]
        omega
    · intro address deleted
      have apart : address ≠ l.created := fun same => fresh.2 (same ▸ deleted)
      exact (Function.update_of_ne apart ..).trans (sound.gone address deleted)
    · intro address left live
      have live : Function.update l.live l.created (some endpoint) address = some left := live
      by_cases same : address = l.created
      · rw [same, Function.update_self] at live
        cases live
        rfl
      · rw [Function.update_of_ne same] at live
        exact sound.kept address left live
  show Avoids Halt.dangling (if added then pure l' else l'.delete network l.created) _
  cases added with
  | true =>
    refine ⟨soundNow, fun address apart => ?_, fun left live => ?_⟩
    · rw [List.mem_singleton] at apart
      exact Function.update_of_ne apart ..
    · have live : Function.update l.live l.created (some endpoint) l.created = some left := live
      rw [Function.update_self] at live
      cases live
      rfl
  | false =>
    refine (soundNow.delete (Function.update_self l.created (some endpoint) l.live)).mono ?_
    rintro next ⟨soundNext, live⟩
    refine ⟨soundNext, fun address apart => ?_, fun left there => ?_⟩
    · rw [List.mem_singleton] at apart
      rw [live, Function.update_of_ne apart]
      exact Function.update_of_ne apart ..
    · rw [live, Function.update_self] at there
      cases there

/-- A connection that the input does not report is as peers and tasks leave it. -/
def KeepsUnreported (l next : NetworkEventLoop κ) (input : Input κ) : Prop :=
  ∀ address endpoint, l.live address = some endpoint →
    (∀ disconnected events, input = .wait disconnected events → address ∉ events.map Readiness.address) →
    next.live address = some (changed address endpoint input)

theorem take_live {endpoint : Endpoint κ} (events : List Readiness) (there : l.live address = some endpoint) :
    (l.take events).live address =
      some (if address ∈ events.map Readiness.address then { endpoint with ready := false } else endpoint) := by
  simp only [NetworkEventLoop.take, there, Option.map_some]

theorem Sound.wait (sound : Sound l) {disconnected : Bool} {events : List Readiness}
    (possible : Possible network l (.wait disconnected events)) :
    Avoids Halt.dangling (NetworkEventLoop.forEvents network disconnected events (l.take events)) fun out =>
      Served disconnected events (l.take events) out.2 := by
  refine (sound.take events).forEvents disconnected events possible.1 ?_
  intro event member
  obtain ⟨endpoint, there, reports⟩ := possible.2 event member
  have taken := take_live events there
  rw [if_pos (List.mem_map_of_mem member)] at taken
  exact ⟨_, taken, reports.brings⟩

theorem update_map_live {change : Endpoint κ → Endpoint κ} {endpoint : Endpoint κ} {other : Nat}
    (there : l.live other = some endpoint) (address : Nat) :
    Function.update l.live address ((l.live address).map change) other =
      some (if address = other then change endpoint else endpoint) := by
  by_cases same : other = address
  · subst same
    rw [Function.update_self, there, if_pos rfl, Option.map_some]
  · rw [Function.update_of_ne same, there, if_neg (Ne.symm same)]

/-- Whatever happens, only live connections are used, and the state stays sound. -/
theorem Sound.step (sound : Sound l) {input : Input κ} (possible : Possible network l input) :
    Avoids Halt.dangling (step network l input) fun out => Sound out.1 ∧ KeepsUnreported l out.1 input := by
  cases input with
  | accept connection unread added =>
    refine (sound.accept connection unread added).bind ?_
    rintro next ⟨soundNext, elsewhere, -⟩
    refine ⟨soundNext, fun address endpoint there _ => ?_⟩
    rw [elsewhere address ?_, there]
    · rfl
    · rw [List.mem_singleton]
      rintro rfl
      have created := (sound.accounted l.created).mpr (.inl (by simp [there]))
      exact Nat.lt_irrefl _ created
  | arrive address bytes =>
    obtain ⟨endpoint, there, -⟩ := possible
    have soundNext : Sound (l.arrive address bytes) := by
      unfold NetworkEventLoop.arrive
      rw [there]
      refine sound.put { endpoint with
        unread := endpoint.unread ++ bytes
        ready := endpoint.ready || !bytes.isEmpty
        sent := endpoint.sent ++ bytes } there ?_ l.errno
      rw [← List.append_assoc, sound.kept _ _ there]
    refine ⟨soundNext, fun other endpoint there _ => ?_⟩
    exact update_map_live there address
  | act address change =>
    obtain ⟨⟨endpoint, there⟩, -⟩ := possible
    have soundNext : Sound (l.act address change) := by
      unfold NetworkEventLoop.act
      rw [there]
      have kept := sound.kept address endpoint there
      exact sound.put { endpoint with
        connection := { endpoint.connection with object := change endpoint.connection.object } } there kept l.errno
    refine ⟨soundNext, fun other endpoint there _ => ?_⟩
    exact update_map_live there address
  | wait disconnected events =>
    refine (sound.wait possible).bind ?_
    rintro ⟨fates, next⟩ done
    refine ⟨done.sound, fun address endpoint there unreported => ?_⟩
    have outside := unreported disconnected events rfl
    have among : address ∉ (served disconnected events).map Readiness.address := by
      intro inside
      refine outside ?_
      rw [← served_dropped disconnected events, List.map_append]
      exact List.mem_append_left _ inside
    have taken := take_live events there
    rw [if_neg outside] at taken
    exact (done.elsewhere address among).trans taken

/-! ### Runs -/

theorem safe_run {inputs : List (Input κ)} (possible : Transition.Meets (step network) (Possible network) {} inputs) :
    Avoids Halt.dangling (Transition.run (step network) {} inputs) fun out => Sound out.1 := by
  refine avoids_meets Sound ?_ .start possible
  intro l input sound possible
  exact (sound.step possible).mono fun out kept => kept.1

/-- However peers, listener and tasks go on, the event loop uses no connection that it has
deleted and runs no destructor twice. All that were created are live or deleted, and each
live one has been handed, byte by byte in its order, what its peer has sent, up to what
the kernel still has. -/
theorem connections_used_while_live (network : ConnectionObject κ) (inputs : List (Input κ))
    (possible : Transition.Meets (step network) (Possible network) {} inputs) :
    Avoids Halt.dangling (Transition.run (step network) {} inputs) fun out => Sound out.1 :=
  safe_run possible

/-- Two frames that come before the connection is registered, and one `epoll_wait`. -/
theorem first_bytes_handed_over :
    Avoids Halt.dangling (Transition.run
      (step { Connection.networkClass Connection.skimming with hasOnClose := fun _ => true }) {}
      [.accept (Connection.new (fun _ _ => 0) 2 [] { maxReadSize := 10, decoder := () } ⟨0⟩ [] ()) [1, 7, 1, 8] true,
        .wait true [⟨0, false, ⟨[[1, 7], [1, 8]], by simp, .wouldBlock⟩, []⟩]]) fun out => Sound out.1 := by
  apply connections_used_while_live
  refine ⟨trivial, ?_⟩
  rintro next output accepted
  cases accepted
  refine ⟨⟨by simp, ?_⟩, fun _ _ _ => trivial⟩
  intro event member
  cases List.mem_singleton.mp member
  exact ⟨_, rfl, rfl, .inl rfl, rfl⟩

end ShipNet.NetworkEventLoop
