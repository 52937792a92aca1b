import ShipNet.EpollListener

/-! The descriptors of a process with any number of listeners, connectors, event loops and
connections: what they open, and what they close. `StartListening` does not return, so a
listener at work is not destroyed, and nobody else calls its `Bind`. -/
namespace ShipNet
open EpollListener

/-- An object that closes descriptors. -/
inductive Holder where
  /-- With whether it has the numbers of its socket and of its epoll instance from `Bind`, and
  whether an `accept4` has failed in `StartListening`. -/
  | listener (l : EpollListener) (bound polls failed : Bool)
  | eventLoop (epollFileDescriptor : Int)
  | connection (socketFileDescriptor : Int) (closer : UnixReadWriteCloser)

namespace Holder

/-- What the destructor closes, in that order: `~EpollListener`, `~EpollEventLoop`, and
`~UnixReadWriteCloser` by `unixClose`. The event loop that `~EpollListener` deletes is
another holder. -/
def closes : Holder → List Int
  | listener l _ _ _ => [l.epollFileDescriptor, l.socketFileDescriptor]
  | eventLoop epollFileDescriptor => [epollFileDescriptor]
  | connection socketFileDescriptor closer => if !closer.closed then [socketFileDescriptor] else []

/-- Those numbers that it got from a call, and has not closed. -/
def keeps : Holder → List Int
  | listener l bound polls _ =>
    (if polls then [l.epollFileDescriptor] else []) ++ (if bound then [l.socketFileDescriptor] else [])
  | eventLoop epollFileDescriptor => [epollFileDescriptor]
  | connection socketFileDescriptor closer => if !closer.closed then [socketFileDescriptor] else []

end Holder

/-- `Bind` comes to `epoll_create1`. -/
def EpollListener.BindAnswers.polls (answers : BindAnswers) : Bool :=
  answers.socket != -1 && answers.ioctl && answers.bind && answers.listen

namespace UnixConnector

/-- How the system calls of `Connect` answer. -/
structure ConnectAnswers where
  socket : Int
  ioctl : Bool
  connect : Bool
  errno : Nat

/-- `Connect`, up to the call of `Accept` with the descriptor that it returns. -/
def connect (table : DescriptorTable) (answers : ConnectAnswers) : Errorable Int × DescriptorTable :=
  if answers.socket = -1 then (errnoErrorable answers.socket answers.errno, table)
  else
    let table := table.install answers.socket
    if !answers.ioctl then (errnoErrorable answers.socket answers.errno, table)
    else if !answers.connect then (errnoErrorable answers.socket answers.errno, table)
    else (successErrorable answers.socket, table)

end UnixConnector

/-- A process. Each holder has a name of its own. -/
structure Process where
  table : DescriptorTable
  holders : Nat → Option Holder := fun _ => none
  created : Nat := 0
  /-- The files that each holder has opened, or was made for. -/
  files : Nat → List Nat := fun _ => []
  /-- The files that `Connect` has opened and returned with an error, and those whose numbers
  `Bind` has overwritten, as long as nobody closes them. -/
  leaked : List Nat := []
  /-- The closes of a file by a holder that has not opened it. -/
  strays : List (Nat × Int) := []

namespace Process

def adopt (p : Process) (holder : Holder) (files : List Nat) : Process :=
  { p with
    holders := Function.update p.holders p.created (some holder)
    files := Function.update p.files p.created files
    created := p.created + 1 }

/-- `close(number)` by a holder. -/
def closeBy (name : Nat) (p : Process) (number : Int) : Process :=
  { p with
    table := p.table.close number
    leaked := p.leaked.filter fun file => p.table.files number ≠ some file
    strays := match p.table.files number with
      | none => p.strays
      | some file => if file ∈ p.files name then p.strays else p.strays ++ [(name, number)] }

/-- The destructor. -/
def destroy (p : Process) (name : Nat) : Process :=
  match p.holders name with
  | none => p
  | some holder =>
    let p := holder.closes.foldl (closeBy name) p
    { p with holders := Function.update p.holders name none }

/-- `UnixReadWriteCloser::Close`, which `Write` calls too. -/
def close (p : Process) (name : Nat) : Process :=
  match p.holders name with
  | some (.connection socketFileDescriptor closer) =>
    if !closer.closed then
      let p := p.closeBy name socketFileDescriptor
      { p with holders := Function.update p.holders name (some (.connection socketFileDescriptor closer.close)) }
    else p
  | some (.listener _ _ _ _) | some (.eventLoop _) | none => p

/-- The names of the files that a call has opened. -/
def openedBetween (before after : DescriptorTable) : List Nat :=
  List.range' before.opened (after.opened - before.opened)

/-- `Bind` of a listener, the first time or again. -/
def bind (p : Process) (name : Nat) (answers : BindAnswers) : Process :=
  match p.holders name with
  | some (.listener l bound polls failed) =>
    let answered := EpollListener.bind l p.table answers
    let overwritten := (if polls && answers.polls then [l.epollFileDescriptor] else []) ++
      (if bound then [l.socketFileDescriptor] else [])
    { p with
      table := answered.2.2
      holders := Function.update p.holders name (some (.listener answered.2.1 true (polls || answers.polls) failed))
      files := Function.update p.files name (p.files name ++ openedBetween p.table answered.2.2)
      leaked := p.leaked ++ overwritten.filterMap p.table.files }
  | some (.eventLoop _) | some (.connection _ _) | none => p

/-- `StartListening` where `accept4` fails otherwise than by `EAGAIN`, for an event with this
`data.fd`. -/
def failedAccept (p : Process) (name : Nat) (fd : Int) : Process :=
  match p.holders name with
  | some (.listener l bound _ _) =>
    let p := [fd, l.epollFileDescriptor].foldl (closeBy name) p
    let still := bound && decide (l.socketFileDescriptor ∉ [fd, l.epollFileDescriptor])
    { p with holders := Function.update p.holders name (some (.listener l still false true)) }
  | some (.eventLoop _) | some (.connection _ _) | none => p

/-- `EpollEventLoop::Accept` of a descriptor that is open: the connection that
`NewConnection` makes is deleted again if `epoll_ctl` fails. -/
def accept (p : Process) (number : Int) (file : Nat) (added : Bool) : Process :=
  let connection := p.created
  let p := p.adopt (.connection number {}) [file]
  if added then p else p.destroy connection

inductive Input where
  /-- `EpollListener` is made. -/
  | listener
  | bind (name : Nat) (answers : BindAnswers)
  /-- `EpollEventLoop::NewEventLoop`. -/
  | eventLoop (epollCreate : Int)
  /-- `StartListening` accepts a descriptor. -/
  | accept4 (number : Int) (added : Bool)
  | failedAccept (name : Nat) (fd : Int)
  | connect (answers : UnixConnector.ConnectAnswers) (added : Bool)
  | close (name : Nat)
  | destroy (name : Nat)
  /-- The rest of the process opens a file, or closes one. -/
  | opens (number : Int)
  | closes (number : Int)

def next (p : Process) : Input → Process
  | .listener => p.adopt (.listener {} false false false) []
  | .bind name answers => p.bind name answers
  | .eventLoop epollCreate =>
    if epollCreate = -1 then p
    else { p with table := p.table.install epollCreate }.adopt (.eventLoop epollCreate) [p.table.opened]
  | .accept4 number added => { p with table := p.table.install number }.accept number p.table.opened added
  | .failedAccept name fd => p.failedAccept name fd
  | .connect answers added =>
    let connected := UnixConnector.connect p.table answers
    if connected.1.isSuccess then { p with table := connected.2 }.accept connected.1.value p.table.opened added
    else { p with table := connected.2, leaked := p.leaked ++ openedBetween p.table connected.2 }
  | .close name => p.close name
  | .destroy name => p.destroy name
  | .opens number => { p with table := p.table.install number }
  | .closes number =>
    { p with table := p.table.close number, leaked := p.leaked.filter fun file => p.table.files number ≠ some file }

def step (p : Process) (input : Input) : Except Halt (Process × Unit) := pure (p.next input, ())

/-- No holder has opened the file, or was made for it. -/
def Foreign (p : Process) (file : Nat) : Prop := ∀ name, file ∉ p.files name

/-- What can happen: the kernel gives numbers that are not in use, and reports of a listener's
own epoll instance the listener's own socket; objects are used until they are destroyed, and
the rest of the process closes no file of theirs. -/
def Possible (p : Process) : Input → Prop
  | .listener => True
  | .bind name answers =>
    (∃ l bound polls, p.holders name = some (.listener l bound polls false)) ∧ answers.Possible p.table
  | .eventLoop epollCreate => epollCreate = -1 ∨ Free p.table epollCreate
  | .accept4 number _ => Free p.table number
  | .failedAccept name fd => ∃ l bound polls failed, p.holders name = some (.listener l bound polls failed) ∧
      ((∃ file ∈ p.files name, p.table.Holds l.epollFileDescriptor file) →
        ∃ file ∈ p.files name, p.table.Holds fd file)
  | .connect answers _ => answers.socket = -1 ∨ Free p.table answers.socket
  | .close name => p.holders name ≠ none
  | .destroy name => p.holders name ≠ none ∧ ∀ l bound polls, p.holders name ≠ some (.listener l bound polls true)
  | .opens number => Free p.table number
  | .closes number => ∀ file, p.table.Holds number file → p.Foreign file

/-- A listener that is destroyed has come to `epoll_create1`, or number 0 stands for no file
of anybody else. An `accept4` fails at a listener whose own epoll instance is still open, or
the numbers that it then closes stand for no file of anybody else. -/
def Harmless (p : Process) : Input → Prop
  | .destroy name => ∀ l bound failed, p.holders name = some (.listener l bound false failed) →
      ∀ file, p.table.Holds 0 file → file ∈ p.files name
  | .failedAccept name fd => ∀ l bound polls failed, p.holders name = some (.listener l bound polls failed) →
      (∃ file ∈ p.files name, p.table.Holds l.epollFileDescriptor file) ∨
        ∀ number ∈ [fd, l.epollFileDescriptor], ∀ file, p.table.Holds number file → file ∈ p.files name
  | .listener | .bind _ _ | .eventLoop _ | .accept4 _ _ | .connect _ _ | .close _ | .opens _ | .closes _ => True

end Process

end ShipNet
