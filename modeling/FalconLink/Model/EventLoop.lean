import FalconLink.Foundation.Readiness
import FalconLink.Foundation.Run
import FalconLink.Model.Connection
import Mathlib.Logic.Function.Basic

/-! # The loop of a reactor

One reactor polls its connections, which are edge-triggered, and runs their callbacks. Bytes arrive
and connections are added at any time, also while a callback reads.
-/

namespace FalconLink.EventLoop

open Readiness

/-! ## Sockets -/

/-- How the stream from a peer ends. -/
inductive Ending where
  | shutdown
  | error
  deriving DecidableEq, Repr

/-- What the kernel holds for a socket: the bytes that `::recv` has not given away yet, and the
end of the stream when it has come. -/
structure Socket where
  inbox : Bytes
  ending : Option Ending
  deriving DecidableEq, Repr

namespace Socket

def empty : Socket :=
  ⟨[], none⟩

/-- `EPOLLIN`. -/
def isReadable (socket : Socket) : Bool :=
  !socket.inbox.isEmpty || socket.ending.isSome

/-- The socket after a call of `::recv` with this result, when the call can have it. -/
def recv (socket : Socket) : RecvResult → Option Socket
  | .chunk data =>
      if data.bytes <+: socket.inbox then
        some { socket with inbox := socket.inbox.drop data.bytes.length }
      else none
  | .interrupted => some socket
  | .again => if socket.inbox = [] ∧ socket.ending = none then some socket else none
  | .closed => if socket.inbox = [] ∧ socket.ending = some .shutdown then some socket else none
  | .failed => if socket.ending = some .error then some socket else none

end Socket

/-! ## Callbacks -/

/-- What a callback does once its `recv` has returned. The results of `::recv` and of `::send`
decide what becomes of the state `σ` of the callbacks, and whether the connection is deleted. A
callback that does not return has no outcome. -/
structure Callback (C σ : Type) where
  run : C → List RecvResult → List SendResult → σ → Option (σ × Bool)
  /-- A connection is deleted when its `recv` has reported an exit. -/
  deletes : ∀ {conn results sends user out}, run conn results sends user = some out →
    ((Connection.empty.recv 0 results).any Connection.Received.exit) = true → out.2 = true

/-! ## The loop -/

inductive Status where
  /-- The client is connected, and `addConnection` is still to come. -/
  | accepted
  /-- Watched by the poller and held in `connections_`. -/
  | added
  | deleted
  deriving DecidableEq, Repr

/-- Where the thread of the loop is. -/
inductive Phase (C : Type) where
  /-- Before the next callback or the next `poll`. -/
  | between
  /-- In `recv` of the callback, which has had these results of `::recv`. -/
  | receiving (conn : C) (results : List RecvResult)
  | handling (conn : C) (results : List RecvResult)

/-- `arrived` and `calls` record what has come from each peer, and the results of `::recv` in the
callbacks that have returned. -/
structure State (C σ : Type) where
  sockets : C → Socket
  status : C → Status
  /-- The ready list of the `epoll` instance. -/
  ready : List C
  /-- The entries of `ready_conns` that are not invoked yet. -/
  readyConns : List C
  phase : Phase C
  user : σ
  arrived : C → Bytes
  calls : C → List (List RecvResult)

inductive Event (C : Type) where
  | arrive (conn : C) (bytes : Bytes)
  | finish (conn : C) (ending : Ending)
  | addConnection (conn : C)
  | poll
  | invoke
  | recv (result : RecvResult)
  | handle (sends : List SendResult)

variable {C σ : Type} [DecidableEq C]

def initial (C : Type) (user : σ) : State C σ where
  sockets := fun _ => .empty
  status := fun _ => .accepted
  ready := []
  readyConns := []
  phase := .between
  user := user
  arrived := fun _ => []
  calls := fun _ => []

def setSocket (s : State C σ) (conn : C) (socket : Socket) : State C σ :=
  { s with sockets := Function.update s.sockets conn socket }

def isReadable (s : State C σ) (conn : C) : Bool :=
  (s.sockets conn).isReadable

/-- Something has happened at a socket. -/
def notify (s : State C σ) (conn : C) : State C σ :=
  if s.status conn = .added then { s with ready := signal s.ready conn } else s

/-- `EPOLL_CTL_ADD` finds out whether the socket is readable. -/
def addConnection (s : State C σ) (conn : C) : State C σ :=
  let s := { s with status := Function.update s.status conn .added }
  if isReadable s conn then notify s conn else s

/-- `deleteConnection` closes the socket, which takes it off the ready list. -/
def deleteConnection (s : State C σ) (conn : C) : State C σ :=
  { s with
    status := Function.update s.status conn .deleted
    ready := s.ready.erase conn }

/-- Whether the loop of `recv` goes on after a result. -/
def goesOn : RecvResult → Bool
  | .chunk _ | .interrupted => true
  | .again | .closed | .failed => false

/-- `epoll_wait` waits for as long as nothing is ready. -/
def poll (pollSize : ℕ) (s : State C σ) : Option (State C σ) :=
  let harvested := harvest (isReadable s) pollSize s.ready
  if harvested.1 ≠ [] then some { s with ready := harvested.2, readyConns := harvested.1 } else none

/-- The callback has returned. -/
def afterCallback (s : State C σ) (conn : C) (results : List RecvResult) (user : σ) : State C σ :=
  { s with
    user
    phase := .between
    calls := Function.update s.calls conn (s.calls conn ++ [results]) }

def handle (callback : Callback C σ) (s : State C σ) (conn : C) (results : List RecvResult)
    (sends : List SendResult) : Option (State C σ) :=
  (callback.run conn results sends s.user).map fun (user, deleted) =>
    if deleted then deleteConnection (afterCallback s conn results user) conn
    else afterCallback s conn results user

def next (pollSize : ℕ) (callback : Callback C σ) (s : State C σ) : Event C → Option (State C σ)
  | .arrive conn bytes =>
      if (s.sockets conn).ending = none ∧ s.status conn ≠ .deleted then
        let socket := { s.sockets conn with inbox := (s.sockets conn).inbox ++ bytes }
        some (notify { setSocket s conn socket with
          arrived := Function.update s.arrived conn (s.arrived conn ++ bytes) } conn)
      else none
  | .finish conn ending =>
      if (s.sockets conn).ending = none ∧ s.status conn ≠ .deleted then
        some (notify (setSocket s conn { s.sockets conn with ending := some ending }) conn)
      else none
  | .addConnection conn =>
      if s.status conn = .accepted then some (addConnection s conn) else none
  | .poll =>
      match s.phase, s.readyConns with
      | .between, [] => poll pollSize s
      | _, _ => none
  | .invoke =>
      match s.phase, s.readyConns with
      | .between, conn :: readyConns => some { s with readyConns, phase := .receiving conn [] }
      | _, _ => none
  | .recv result =>
      match s.phase with
      | .receiving conn results => ((s.sockets conn).recv result).map fun socket =>
          { setSocket s conn socket with
            phase := if goesOn result then .receiving conn (results ++ [result])
              else .handling conn (results ++ [result]) }
      | _ => none
  | .handle sends =>
      match s.phase with
      | .handling conn results => handle callback s conn results sends
      | _ => none

/-- The loop waits in `epoll_wait`, and nothing is ready. -/
def Waits (pollSize : ℕ) (s : State C σ) : Prop :=
  match s.phase, s.readyConns with
  | .between, [] => poll pollSize s = none
  | _, _ => False

end FalconLink.EventLoop
