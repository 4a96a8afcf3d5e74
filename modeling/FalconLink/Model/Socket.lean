import Mathlib.Data.Int.Notation
import Mathlib.Logic.Function.Basic
import FalconLink.Foundation.Run

/-! # Sockets and their descriptors

Several `Socket` objects in one process. A descriptor number is free again as soon as it is
closed, and any free number can be the next one that the operating system hands out.
-/

namespace FalconLink.Sockets

/-- The name of a `Socket` object. -/
abbrev SocketId := ℕ

structure World where
  /-- `sockfd_` of every live `Socket`. -/
  sockfd : SocketId → Option ℤ
  /-- The open descriptors of the process. -/
  opened : List ℤ
  /-- How often `close` was called on a descriptor that is not open. -/
  strayCloses : ℕ

/-- The system calls and the operations that programs perform on sockets. A descriptor that
an operation opens is named in it. -/
inductive Op where
  /-- `Socket()`, with the result of `socket`. -/
  | construct (self : SocketId) (result : ℤ)
  /-- A descriptor is opened, for instance by `accept`, and passed to `Socket(int)`. -/
  | wrap (self : SocketId) (fd : ℤ)
  | moveConstruct (self rhs : SocketId)
  | moveAssign (self rhs : SocketId)
  | destroy (self : SocketId)
  deriving DecidableEq, Repr

namespace World

def init (opened : List ℤ) : World :=
  ⟨fun _ => none, opened, 0⟩

def setSockfd (w : World) (self : SocketId) (fd : Option ℤ) : World :=
  { w with sockfd := Function.update w.sockfd self fd }

/-- The numbers that the operating system can hand out. -/
def Free (w : World) (fd : ℤ) : Prop :=
  0 ≤ fd ∧ fd ∉ w.opened

instance (w : World) (fd : ℤ) : Decidable (w.Free fd) :=
  inferInstanceAs (Decidable (0 ≤ fd ∧ fd ∉ w.opened))

def openFd (w : World) (fd : ℤ) : World :=
  { w with opened := fd :: w.opened }

def close (w : World) (fd : ℤ) : World :=
  if fd ∈ w.opened then { w with opened := w.opened.filter (· ≠ fd) }
  else { w with strayCloses := w.strayCloses + 1 }

/-- `Socket()` throws when there is no descriptor, and then there is no object. -/
def construct (w : World) (self : SocketId) (result : ℤ) : Option World :=
  if result = -1 then some w
  else if w.Free result then some ((w.openFd result).setSockfd self (some result))
  else none

def wrap (w : World) (self : SocketId) (fd : ℤ) : Option World :=
  if w.Free fd then some ((w.openFd fd).setSockfd self (some fd)) else none

def moveConstruct (w : World) (self rhs : SocketId) : Option World :=
  (w.sockfd rhs).map fun rhsSockfd =>
    (w.setSockfd self (some rhsSockfd)).setSockfd rhs (some (-1))

def moveAssign (w : World) (self rhs : SocketId) : Option World :=
  match w.sockfd self, w.sockfd rhs with
  | some sockfd, some rhsSockfd =>
      let closed := if sockfd ≠ -1 then w.close sockfd else w
      some ((closed.setSockfd self (some rhsSockfd)).setSockfd rhs (some sockfd))
  | _, _ => none

def destroy (w : World) (self : SocketId) : Option World :=
  (w.sockfd self).map fun sockfd =>
    (if sockfd ≠ -1 then w.close sockfd else w).setSockfd self none

end World

/-- A new object gets an unused name, and another `Socket` is not the same one. -/
def next (w : World) : Op → Option World
  | .construct self result => if w.sockfd self = none then w.construct self result else none
  | .wrap self fd => if w.sockfd self = none then w.wrap self fd else none
  | .moveConstruct self rhs => if w.sockfd self = none then w.moveConstruct self rhs else none
  | .moveAssign self rhs => if self ≠ rhs then w.moveAssign self rhs else none
  | .destroy self => w.destroy self

end FalconLink.Sockets
