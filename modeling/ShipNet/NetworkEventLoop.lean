import Mathlib.Logic.Function.Basic
import ShipNet.EpollEventLoop
import ShipNet.Transition

/-! `EpollEventLoop` with all its connections: `Accept` registers them, `StartLoop` reads
and deletes them. What the kernel keeps for a descriptor is part of the state: the bytes
that nobody has read, and the event of an edge-triggered registration. -/
namespace ShipNet
open Fallible EpollEventLoop

/-- What ends the process. -/
inductive Halt where
  | fault (fault : Fault)
  /-- A connection is used after it was deleted. -/
  | dangling
  /-- `std::terminate`. -/
  | terminate
  deriving DecidableEq, Repr

/-- What the event loop uses of the class of its connections, with the destructor. -/
structure ConnectionObject (κ : Type) extends ConnectionClass κ where
  /-- Whether `onClose` holds a function. -/
  hasOnClose : κ → Bool

/-- A connection, with a record of the bytes that `HandleNewBytes` was called with. -/
structure Recorded (κ : Type) where
  object : κ
  handed : List UInt8 := []

variable {κ : Type}

def recording (network : ConnectionClass κ) : ConnectionClass (Recorded κ) where
  handleNewBytes connection page := do
    let object ← network.handleNewBytes connection.object page
    pure ⟨object, connection.handed ++ page⟩
  readWriteCloser connection := network.readWriteCloser connection.object

/-- A connection on the heap and the kernel's side of its descriptor. -/
structure Endpoint (κ : Type) where
  connection : Recorded κ
  /-- What the peer has sent and nobody has read. -/
  unread : List UInt8
  /-- The descriptor has become readable since `epoll_wait` last reported it. -/
  ready : Bool
  /-- All that the peer has sent. -/
  sent : List UInt8

/-- The connections of an event loop, by their addresses. An address stands for one `new`,
so none is used twice. -/
structure NetworkEventLoop (κ : Type) where
  live : Nat → Option (Endpoint κ) := fun _ => none
  created : Nat := 0
  /-- The connections whose destructor has run, in that order. -/
  deleted : List Nat := []
  errno : Nat := 0

/-- An event that `epoll_wait` reports, and how the socket answers while it is read. -/
structure Readiness where
  address : Nat
  rdhup : Bool
  socket : Socket
  /-- Those bytes of the socket that come while it is read. -/
  meanwhile : List UInt8

namespace NetworkEventLoop

/-- What happens to an event loop. -/
inductive Input (κ : Type) where
  /-- The listener accepts a descriptor, for which `NewConnection` makes this connection;
  `epoll_ctl` adds it or fails. -/
  | accept (connection : κ) (unread : List UInt8) (added : Bool)
  /-- The peer sends bytes. -/
  | arrive (address : Nat) (bytes : List UInt8)
  /-- A task works on a connection. -/
  | act (address : Nat) (change : κ → κ)
  /-- `epoll_wait` returns. The local variable `disconnected` starts with any value. -/
  | wait (disconnected : Bool) (events : List Readiness)

variable (network : ConnectionObject κ)

/-- `delete connection`. The destructor calls `onClose` first, and an empty function throws. -/
def delete (l : NetworkEventLoop κ) (address : Nat) : Except Halt (NetworkEventLoop κ) :=
  match l.live address with
  | none => throw .dangling
  | some endpoint =>
    if network.hasOnClose endpoint.connection.object then
      pure { l with live := Function.update l.live address none, deleted := l.deleted ++ [address] }
    else throw .terminate

/-- `Accept(int fileDescriptor)`. -/
def accept (l : NetworkEventLoop κ) (connection : κ) (unread : List UInt8) (added : Bool) :
    Except Halt (NetworkEventLoop κ) :=
  let endpoint := { connection := ⟨connection, []⟩, unread := unread, ready := !unread.isEmpty, sent := unread }
  let l' := { l with live := Function.update l.live l.created (some endpoint), created := l.created + 1 }
  if added then pure l' else l'.delete network l.created

/-- `while (true)` of an event without `EPOLLRDHUP`. -/
def readConnection (l : NetworkEventLoop κ) (event : Readiness) : Except Halt (Fate × NetworkEventLoop κ) :=
  match l.live event.address with
  | none => throw .dangling
  | some endpoint =>
    match readLoop (recording network.toConnectionClass) ⟨endpoint.connection, event.socket, l.errno⟩ with
    | .error fault => throw (.fault fault)
    | .ok (fate, reading) => do
      let endpoint := { endpoint with
        connection := reading.connection
        unread := []
        ready := !event.meanwhile.isEmpty
        sent := endpoint.sent ++ event.meanwhile }
      let l := { l with live := Function.update l.live event.address (some endpoint), errno := reading.errno }
      if fate = .deleted then
        let l ← l.delete network event.address
        pure (fate, l)
      else pure (fate, l)

/-- `for (int i = 0; i < amount; ++i)`. -/
def forEvents (disconnected : Bool) : List Readiness → NetworkEventLoop κ → Except Halt (List Fate × NetworkEventLoop κ)
  | [], l => pure ([], l)
  | event :: later, l =>
    if event.rdhup then do
      let l ← l.delete network event.address
      let (fates, l) ← forEvents disconnected later l
      pure (.deleted :: fates, l)
    else do
      let (fate, l) ← l.readConnection network event
      let disconnected := if fate = .deleted then true else disconnected
      if disconnected then pure (fate :: later.map fun _ => .untouched, l)
      else do
        let (fates, l) ← forEvents disconnected later l
        pure (fate :: fates, l)

/-- `epoll_wait` reports an event once. -/
def take (l : NetworkEventLoop κ) (events : List Readiness) : NetworkEventLoop κ :=
  { l with live := fun address => (l.live address).map fun endpoint =>
      if address ∈ events.map Readiness.address then { endpoint with ready := false } else endpoint }

def arrive (l : NetworkEventLoop κ) (address : Nat) (bytes : List UInt8) : NetworkEventLoop κ :=
  { l with live := Function.update l.live address ((l.live address).map fun endpoint => { endpoint with
      unread := endpoint.unread ++ bytes, ready := endpoint.ready || !bytes.isEmpty, sent := endpoint.sent ++ bytes }) }

def act (l : NetworkEventLoop κ) (address : Nat) (change : κ → κ) : NetworkEventLoop κ :=
  { l with live := Function.update l.live address ((l.live address).map fun endpoint => { endpoint with
      connection := { endpoint.connection with object := change endpoint.connection.object } }) }

def step (l : NetworkEventLoop κ) : Input κ → Except Halt (NetworkEventLoop κ × List Fate)
  | .accept connection unread added => do pure (← l.accept network connection unread added, [])
  | .arrive address bytes => pure (l.arrive address bytes, [])
  | .act address change => pure (l.act address change, [])
  | .wait disconnected events => do
    let (fates, l) ← forEvents network disconnected events (l.take events)
    pure (l, fates)

/-- The connection that has not been closed by its own code. -/
def Open (network : ConnectionObject κ) (connection : κ) : Prop :=
  (network.readWriteCloser connection).closed = false

/-- What the kernel can report of a live connection: its descriptor is open, it has become
readable or has come to an end, and the reads bring what is there. -/
structure Reports (network : ConnectionObject κ) (endpoint : Endpoint κ) (event : Readiness) : Prop where
  opened : Open network endpoint.connection.object
  signalled : endpoint.ready = true ∨ event.rdhup = true ∨ event.socket.tail ≠ .wouldBlock
  brings : event.socket.pending.flatten = endpoint.unread ++ event.meanwhile

/-- What can happen: `epoll_wait` reports a descriptor at most once, peers send to open
descriptors, and tasks work on connections that exist and do not open closed ones. -/
def Possible (network : ConnectionObject κ) (l : NetworkEventLoop κ) : Input κ → Prop
  | .accept _ _ _ => True
  | .arrive address _ => ∃ endpoint, l.live address = some endpoint ∧ Open network endpoint.connection.object
  | .act address change => (∃ endpoint, l.live address = some endpoint) ∧
    ∀ connection, Open network (change connection) → Open network connection
  | .wait _ events => (events.map Readiness.address).Nodup ∧
    ∀ event ∈ events, ∃ endpoint, l.live event.address = some endpoint ∧ Reports network endpoint event

end NetworkEventLoop

end ShipNet
