import ShipNet.DescriptorTable
import ShipNet.NetworkEventLoop

/-! `EpollListener`: `Bind` opens a socket and an epoll instance, `StartListening` accepts
the connections that come to the socket for an event loop, which runs beside it. The
listener waits for the kernel between two steps, so everything else can happen there. -/
namespace ShipNet
open Fallible

structure EpollListener where
  epollFileDescriptor : Int := 0
  socketFileDescriptor : Int := 0
  deriving DecidableEq, Repr

namespace EpollListener

/-- How the system calls of `Bind` answer: a descriptor or `-1`, or whether they succeed. -/
structure BindAnswers where
  socket : Int
  ioctl : Bool
  bind : Bool
  listen : Bool
  epollCreate : Int
  epollCtl : Bool
  /-- After the call that fails. -/
  errno : Nat

/-- `Bind`. -/
def bind (l : EpollListener) (table : DescriptorTable) (answers : BindAnswers) :
    Errorable Int × EpollListener × DescriptorTable :=
  let l := { l with socketFileDescriptor := answers.socket }
  if answers.socket = -1 then (errnoErrorable l.socketFileDescriptor answers.errno, l, table)
  else
    let table := table.install answers.socket
    if !answers.ioctl then (errnoErrorable l.socketFileDescriptor answers.errno, l, table)
    else if !answers.bind then (errnoErrorable l.socketFileDescriptor answers.errno, l, table)
    else if !answers.listen then (errnoErrorable l.socketFileDescriptor answers.errno, l, table)
    else
      let l := { l with epollFileDescriptor := answers.epollCreate }
      if answers.epollCreate = -1 then (errnoErrorable l.epollFileDescriptor answers.errno, l, table)
      else
        let table := table.install answers.epollCreate
        if !answers.epollCtl then (errnoErrorable l.epollFileDescriptor answers.errno, l, table)
        else (successErrorable l.epollFileDescriptor, l, table)

/-- A call that opens a file gets a number that is not in use. -/
def Free (table : DescriptorTable) (number : Int) : Prop := 0 ≤ number ∧ table.files number = none

/-- How the kernel can answer. -/
structure BindAnswers.Possible (answers : BindAnswers) (table : DescriptorTable) : Prop where
  socket : answers.socket = -1 ∨ Free table answers.socket
  epollCreate : answers.epollCreate = -1 ∨ Free (table.install answers.socket) answers.epollCreate

/-- Where `StartListening` is: in `epoll_wait`, or in the `while (true)` of an event. -/
inductive Control where
  | waiting
  | accepting
  deriving DecidableEq, Repr

variable {κ π : Type}

/-- What `accept4` returns. Of a connection, `NewConnection` makes its object; it has sent
these bytes by then, and `epoll_ctl` adds it or fails. -/
inductive Accept4 (κ : Type) where
  | received (number : Int) (connection : κ) (unread : List UInt8) (added : Bool)
  | failed (errno : Nat)

/-- A listener at work, with the event loop it accepts for, and the kernel's side of its
socket: peers that wait to be accepted, and the event of an edge-triggered registration.
After it has closed its descriptors the listener goes on with their numbers. -/
structure Service (κ π : Type) where
  listener : EpollListener
  table : DescriptorTable
  socketFile : Nat
  epollFile : Nat
  eventLoop : NetworkEventLoop κ := {}
  control : Control := .waiting
  /-- `event.data.fd` of the event that is worked on. -/
  event : Int := 0
  backlog : List π := []
  ready : Bool := false
  /-- The peers that have tried to connect, and those whose connections were accepted. -/
  arrived : List π := []
  accepted : List π := []
  /-- How many connections it has accepted from another socket, which had the number. -/
  strangers : Nat := 0

inductive Input (κ π : Type) where
  | connect (peer : π)
  /-- `epoll_wait` reports an event with this `data.fd`. In the listener's own instance the
  socket is the only one that is registered, so the loop over the events has one round. -/
  | wake (fd : Int)
  | accept4 (answer : Accept4 κ)
  /-- The rest of the process opens a file, or closes one. -/
  | opens (number : Int)
  | closes (number : Int)
  /-- The event loop goes on. -/
  | loop (input : NetworkEventLoop.Input κ)

namespace Service

/-- After `Bind`, before `StartListening`. -/
def start (table : DescriptorTable) (answers : BindAnswers) : Service κ π where
  listener := (bind {} table answers).2.1
  table := (bind {} table answers).2.2
  socketFile := table.opened
  epollFile := table.opened + 1

/-- The socket is open. -/
def Listening (s : Service κ π) : Prop := s.table.Holds s.listener.socketFileDescriptor s.socketFile

instance (s : Service κ π) : Decidable s.Listening := inferInstanceAs (Decidable (s.table.Holds _ _))

variable (network : ConnectionObject κ)

/-- Behind calls of `close`: no peer waits at a closed socket, and nothing reports it. -/
def closed (s : Service κ π) : Service κ π := if s.Listening then s else { s with backlog := [], ready := false }

/-- A round of the `while (true)` of an event. -/
def acceptRound (s : Service κ π) : Accept4 κ → Except Halt (Service κ π)
  | .failed errno =>
    if errno = eagain then pure { s with control := .waiting }
    else
      let table := (s.table.close s.event).close s.listener.epollFileDescriptor
      pure (closed { s with table := table, control := .waiting })
  | .received number connection unread added => do
    let eventLoop ← s.eventLoop.accept network connection unread added
    let after := { s with table := s.table.install number, eventLoop := eventLoop }
    if s.Listening then
      pure { after with backlog := s.backlog.tail, accepted := s.accepted ++ s.backlog.head?.toList }
    else pure { after with strangers := s.strangers + 1 }

def step (s : Service κ π) : Input κ π → Except Halt (Service κ π × Unit)
  | .connect peer =>
    if s.Listening then
      pure ({ s with backlog := s.backlog ++ [peer], ready := true, arrived := s.arrived ++ [peer] }, ())
    else pure ({ s with arrived := s.arrived ++ [peer] }, ())
  | .wake fd => pure ({ s with control := .accepting, event := fd, ready := false }, ())
  | .accept4 answer => do pure (← s.acceptRound network answer, ())
  | .opens number => pure ({ s with table := s.table.install number }, ())
  | .closes number => pure ({ s with table := s.table.close number }, ())
  | .loop input => do
    let done ← s.eventLoop.step network input
    pure ({ s with eventLoop := done.1 }, ())

/-- What can happen: the listener's own instance reports the socket that `Bind` registered,
`accept4` blocks only without a peer that waits, and the rest of the process closes its own
files alone. Of files that have got the numbers of the listener's nothing is known. -/
def Possible (network : ConnectionObject κ) (s : Service κ π) : Input κ π → Prop
  | .connect _ => True
  | .wake fd => s.control = .waiting ∧ (s.table.Holds s.listener.epollFileDescriptor s.epollFile →
      s.ready = true ∧ fd = s.listener.socketFileDescriptor)
  | .accept4 (.received number _ _ _) => s.control = .accepting ∧ (s.Listening → s.backlog ≠ []) ∧
    Free s.table number
  | .accept4 (.failed errno) => s.control = .accepting ∧ (s.Listening → errno = eagain → s.backlog = [])
  | .opens number => Free s.table number
  | .closes number => ¬ s.table.Holds number s.socketFile ∧ ¬ s.table.Holds number s.epollFile
  | .loop input => (∀ connection unread added, input ≠ .accept connection unread added) ∧
    s.eventLoop.Possible network input

end Service

end EpollListener

end ShipNet
