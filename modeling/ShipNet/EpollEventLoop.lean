import ShipNet.UnixReadWriteCloser

/-! `EpollEventLoop::StartLoop`: the `for` loop over the events of one
`epoll_wait`, and the `while (true)` that reads the connection of an event. What
a connection does with its bytes is open here. -/
namespace ShipNet
open Fallible

/-- What the event loop uses of the class of its connections. -/
structure ConnectionClass (κ : Type) where
  /-- `HandleNewBytes`. The handlers that it calls change their own connection only. -/
  handleNewBytes : κ → List UInt8 → Exec κ
  readWriteCloser : κ → UnixReadWriteCloser

namespace EpollEventLoop

/-- How a socket answers when it has no more bytes, each time it is asked. -/
inductive Tail where
  | wouldBlock
  | failing (errno : Nat) (fatal : errno ≠ eagain)
  | endOfFile

def Tail.answer : Tail → UnixReadWriteCloser.ReadResult
  | .wouldBlock => .failed eagain
  | .failing errno _ => .failed errno
  | .endOfFile => .received []

/-- A socket: the reads that bring bytes, and what comes after them. -/
structure Socket where
  pending : List (List UInt8)
  nonempty : ∀ page ∈ pending, page ≠ []
  tail : Tail

def Socket.read (socket : Socket) : UnixReadWriteCloser.ReadResult × Socket :=
  match same : socket.pending with
  | [] => (socket.tail.answer, socket)
  | page :: later =>
    (.received page, {
      pending := later
      nonempty := fun page member => socket.nonempty page (same ▸ List.mem_cons_of_mem _ member)
      tail := socket.tail })

/-- What has become of a connection with an event when the `for` loop is left. -/
inductive Fate where
  | untouched
  /-- Read until `EAGAIN`. -/
  | drained
  | deleted
  deriving DecidableEq, Repr

/-- A connection that is read, its socket, and the thread's `errno`. -/
structure Reading (κ : Type) where
  connection : κ
  socket : Socket
  errno : Nat

variable {κ : Type} (network : ConnectionClass κ)

/-- A round of `while (true)`. Both ways to delete the connection set `disconnected`. -/
def readRound (reading : Reading κ) : Exec (Round (Reading κ) (Fate × Reading κ)) :=
  let readRequest := (network.readWriteCloser reading.connection).read Socket.read reading.errno reading.socket
  let reading := { reading with socket := readRequest.socket, errno := readRequest.errno }
  if readRequest.result.typeOrdinal = .success then do
    let connection ← network.handleNewBytes reading.connection readRequest.page
    pure (.again { reading with connection := connection })
  else if readRequest.result.typeOrdinal = .errno ∧ reading.errno = eagain then
    pure (.leave (.drained, reading))
  else if readRequest.result.typeOrdinal = .gracefulDisconnect then pure (.leave (.deleted, reading))
  else pure (.leave (.deleted, reading))

/-- `while (true)`. Every read of an open socket but the last brings bytes, so a
loop with more rounds than that never ends. -/
def readLoop (reading : Reading κ) : Exec (Fate × Reading κ) :=
  loop .endless (readRound network) (reading.socket.pending.length + 1) reading

/-- An event, with the connection that its `data.ptr` points to. -/
structure Event (κ : Type) where
  rdhup : Bool
  connection : κ
  socket : Socket

/-- `for (int i = 0; i < amount; ++i)`: what becomes of the connections, in order. -/
def forEvents (disconnected : Bool) (errno : Nat) : List (Event κ) → Exec (List Fate)
  | [] => pure []
  | event :: later =>
    if event.rdhup then do
      let fates ← forEvents disconnected errno later
      pure (.deleted :: fates)
    else do
      let (fate, reading) ← readLoop network ⟨event.connection, event.socket, errno⟩
      let disconnected := if fate = .deleted then true else disconnected
      if disconnected then pure (fate :: later.map fun _ => .untouched)
      else do
        let fates ← forEvents disconnected reading.errno later
        pure (fate :: fates)

end EpollEventLoop

end ShipNet
