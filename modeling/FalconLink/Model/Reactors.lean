import FalconLink.Foundation.Descriptors
import FalconLink.Foundation.Run
import Mathlib.Logic.Function.Basic

/-! # Reactors and their connections

The main reactor accepts clients and hands each of them to one of the sub-reactors `R`, which
polls it, runs its callback and deletes it. A callback can start a CGI program, and that child
process inherits the descriptors of the server.
-/

namespace FalconLink.Reactors

open Descriptors

/-- The identity of a `Connection` object. A `Connection *` to a destroyed object refers to
nothing, also after its memory is in use again. -/
abbrev Ptr := ℕ

/-- The descriptor of the socket, and the loop the connection was given to. -/
structure Connection (R : Type) where
  fd : Fd
  ownerLooper : R
  deriving DecidableEq, Repr

inductive Thread (R : Type) where
  | main
  | sub (r : R)
  deriving DecidableEq, Repr

/-- Where a sub-reactor is in the callback of a connection. `fromFd` is the descriptor that the
callback has read from the connection. -/
inductive Callback (R : Type) where
  | idle
  | handling (conn : Ptr) (fromFd : Fd)
  /-- In `waitpid` of `Cgier::run`. -/
  | waiting (conn : Ptr) (fromFd : Fd) (pid : ℕ)
  /-- In `deleteConnection`, before the lock, with the lock and after the erasing. -/
  | deleting (conn : Ptr) (fromFd : Fd) (looper : R)
  | erasing (conn : Ptr) (fromFd : Fd) (looper : R)
  | unlocking (looper : R)

/-- The members of an `EventLoop`, and how far its thread is in `loop`: the entries of
`ready_conns` that are not invoked yet, and the callback that is running. -/
structure EventLoop (R : Type) where
  poller : List (Registration Ptr)
  mtx : Option (Thread R)
  connections : Fd → Option Ptr
  readyConns : List Ptr
  callback : Callback R

/-- Where the main reactor is in `basicAcceptBehavior` and the `addConnection` it calls. -/
inductive Acceptor (R : Type) where
  | idle
  | locking (conn : Ptr) (looper : R)
  | registering (conn : Ptr) (looper : R)
  | inserting (conn : Ptr) (looper : R)
  | unlocking (looper : R)

/-- A child process forked by `Cgier::run`, until it is waited for. -/
structure Child where
  pid : ℕ
  table : Table
  exited : Bool

/-- `lost` are the connections that an insertion into `connections_` has destroyed. -/
structure State (R : Type) where
  loops : R → EventLoop R
  acceptor : Acceptor R
  conns : Ptr → Option (Connection R)
  freshConn : Ptr
  table : Table
  freshDescription : Description
  children : List Child
  lost : List Ptr

inductive Event (R : Type) where
  | accept (acceptFd : Fd) (looper : R)
  | lockAdd
  | register (succeeds : Bool)
  | insert
  | unlockAdd
  | poll (r : R) (ready : List (Registration Ptr))
  | invoke (r : R)
  | fork (r : R) (pid : ℕ)
  | wait (r : R)
  | waitFails (r : R)
  | callDelete (r : R)
  | lockDelete (r : R)
  | erase (r : R)
  | unlockDelete (r : R)
  | finish (r : R)
  | exec (pid : ℕ)
  | exit (pid : ℕ)

def initial (R : Type) : State R where
  loops := fun _ => ⟨[], none, fun _ => none, [], .idle⟩
  acceptor := .idle
  conns := fun _ => none
  freshConn := 0
  table := []
  freshDescription := 0
  children := []
  lost := []

variable {R : Type} [DecidableEq R]

def setLoop (s : State R) (r : R) (loop : EventLoop R) : State R :=
  { s with loops := Function.update s.loops r loop }

/-! ## Closing -/

/-- Whether a process holds a descriptor of the description. -/
def isOpen (s : State R) (description : Description) : Bool :=
  s.table.refersTo description || s.children.any fun child => child.table.refersTo description

/-- The kernel drops the registrations of descriptions that are closed. -/
def dropClosed (s : State R) : State R :=
  { s with loops := fun r => { s.loops r with
      poller := (s.loops r).poller.filter fun reg => isOpen s reg.description } }

/-- The destructor of a `Connection` closes its socket. -/
def destroy (s : State R) (conn : Ptr) : State R :=
  match s.conns conn with
  | some c => dropClosed { s with
      conns := Function.update s.conns conn none
      table := s.table.close c.fd }
  | none => s

/-! ## `EventLoop` and `Acceptor` -/

/-- The kernel gives the new socket a number that is not in use. -/
def accept (s : State R) (acceptFd : Fd) (looper : R) : Option (State R) :=
  if s.table.lookup acceptFd = none then
    some { s with
      acceptor := .locking s.freshConn looper
      conns := Function.update s.conns s.freshConn (some ⟨acceptFd, looper⟩)
      freshConn := s.freshConn + 1
      table := ⟨acceptFd, s.freshDescription, false⟩ :: s.table
      freshDescription := s.freshDescription + 1 }
  else none

/-- `std::mutex::lock`. -/
def lock (s : State R) (looper : R) (thread : Thread R) : Option (State R) :=
  if (s.loops looper).mtx = none then
    some (setLoop s looper { s.loops looper with mtx := some thread })
  else none

def unlock (s : State R) (looper : R) : State R :=
  setLoop s looper { s.loops looper with mtx := none }

/-- `Poller::addConnection`. A failure of `epoll_ctl` is ignored. -/
def pollerAddConnection (s : State R) (looper : R) (conn : Ptr) (succeeds : Bool) :
    Option (State R) := do
  let c ← s.conns conn
  match s.table.lookup c.fd with
  | some d =>
      if succeeds then
        some (setLoop s looper { s.loops looper with
          poller := epollCtlAdd (s.loops looper).poller ⟨c.fd, d.description, conn⟩ })
      else some s
  | none => some s

/-- `connections_.insert`. When the key is in the map, the connection is destroyed with the
argument. -/
def insertConnection (s : State R) (looper : R) (conn : Ptr) : Option (State R) := do
  let c ← s.conns conn
  match (s.loops looper).connections c.fd with
  | none => some (setLoop s looper { s.loops looper with
      connections := Function.update (s.loops looper).connections c.fd (some conn) })
  | some _ => some (destroy { s with lost := conn :: s.lost } conn)

/-- `find` and `erase` of `deleteConnection`. The node of the map, the connection and its
descriptor go in one step: the loop's lock is held, and a fork in between has the same effect as
one before. -/
def eraseConnection (s : State R) (looper : R) (fromFd : Fd) : State R :=
  match (s.loops looper).connections fromFd with
  | some conn => destroy (setLoop s looper { s.loops looper with
      connections := Function.update (s.loops looper).connections fromFd none }) conn
  | none => s

def setCallback (s : State R) (r : R) (callback : Callback R) : State R :=
  setLoop s r { s.loops r with callback }

def setAcceptor (s : State R) (acceptor : Acceptor R) : State R :=
  { s with acceptor }

/-- A call through a pointer to a destroyed connection has no defined outcome. -/
def next (s : State R) : Event R → Option (State R)
  | .accept acceptFd looper =>
      match s.acceptor with
      | .idle => accept s acceptFd looper
      | _ => none
  | .lockAdd =>
      match s.acceptor with
      | .locking conn looper => lock (setAcceptor s (.registering conn looper)) looper .main
      | _ => none
  | .register succeeds =>
      match s.acceptor with
      | .registering conn looper =>
          pollerAddConnection (setAcceptor s (.inserting conn looper)) looper conn succeeds
      | _ => none
  | .insert =>
      match s.acceptor with
      | .inserting conn looper =>
          insertConnection (setAcceptor s (.unlocking looper)) looper conn
      | _ => none
  | .unlockAdd =>
      match s.acceptor with
      | .unlocking looper => some (unlock (setAcceptor s .idle) looper)
      | _ => none
  | .poll r ready =>
      match (s.loops r).callback, (s.loops r).readyConns with
      | .idle, [] =>
          if ready.Nodup ∧ ∀ reg ∈ ready, reg ∈ (s.loops r).poller then
            some (setLoop s r { s.loops r with readyConns := ready.map Registration.data })
          else none
      | _, _ => none
  | .invoke r =>
      match (s.loops r).callback, (s.loops r).readyConns with
      | .idle, conn :: readyConns => (s.conns conn).map fun c =>
          setLoop s r { s.loops r with readyConns, callback := .handling conn c.fd }
      | _, _ => none
  | .fork r pid =>
      match (s.loops r).callback with
      | .handling conn fromFd =>
          if s.children.any fun child => child.pid = pid then none
          else some (setCallback { s with children := ⟨pid, s.table, false⟩ :: s.children } r
            (.waiting conn fromFd pid))
      | _ => none
  | .wait r =>
      match (s.loops r).callback with
      | .waiting conn fromFd pid =>
          if s.children.any fun child => child.pid = pid && child.exited then
            some (setCallback { s with
              children := s.children.filter fun child => child.pid ≠ pid } r
              (.handling conn fromFd))
          else none
      | _ => none
  | .waitFails r =>
      match (s.loops r).callback with
      | .waiting conn fromFd _ => some (setCallback s r (.handling conn fromFd))
      | _ => none
  | .callDelete r =>
      match (s.loops r).callback with
      | .handling conn fromFd => (s.conns conn).map fun c =>
          setCallback s r (.deleting conn fromFd c.ownerLooper)
      | _ => none
  | .lockDelete r =>
      match (s.loops r).callback with
      | .deleting conn fromFd looper =>
          lock (setCallback s r (.erasing conn fromFd looper)) looper (.sub r)
      | _ => none
  | .erase r =>
      match (s.loops r).callback with
      | .erasing _ fromFd looper =>
          some (eraseConnection (setCallback s r (.unlocking looper)) looper fromFd)
      | _ => none
  | .unlockDelete r =>
      match (s.loops r).callback with
      | .unlocking looper => some (unlock (setCallback s r .idle) looper)
      | _ => none
  | .finish r =>
      match (s.loops r).callback with
      | .handling _ _ => some (setCallback s r .idle)
      | _ => none
  | .exec pid => some (dropClosed { s with
      children := s.children.map fun child =>
        if child.pid = pid then { child with table := child.table.exec } else child })
  | .exit pid => some (dropClosed { s with
      children := s.children.map fun child =>
        if child.pid = pid then { child with table := [], exited := true } else child })

end FalconLink.Reactors
