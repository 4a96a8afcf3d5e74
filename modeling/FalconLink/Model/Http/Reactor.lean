import FalconLink.Model.EventLoop
import FalconLink.Model.Http.HttpServer

/-! # The request handler as the callback of a reactor

The connections of the reactor share its cache. A call of `processHttpRequest` that throws or does
not return keeps the thread of the loop.
-/

namespace FalconLink.Http.Reactor

open EventLoop

/-- The cache, and what belongs to each connection. -/
structure User (C : Type) where
  cache : Cache
  conns : C → Connection
  deliveries : C → List Delivery

namespace User

def initial (C : Type) (capacity : UInt64) (clock : ℕ → ℕ) : User C :=
  ⟨Cache.new capacity clock, fun _ => .empty, fun _ => []⟩

variable {C : Type} [DecidableEq C]

/-- The session of a connection at the start of a call. -/
def session (user : User C) (conn : C) (sends : List SendResult) : Session :=
  ⟨user.conns conn, user.cache, sends, user.deliveries conn, .kept⟩

def store (user : User C) (conn : C) (session : Session) : User C where
  cache := session.cache
  conns := Function.update user.conns conn session.conn
  deliveries := Function.update user.deliveries conn session.deliveries

end User

variable {C : Type} [DecidableEq C]

/-- The argument of `onHandle`. -/
def handle (env : Env) (conn : C) (results : List RecvResult) (sends : List SendResult)
    (user : User C) : Option (User C × Bool) :=
  let session := (user.session conn sends).processHttpRequest env results
  match session.status with
  | .kept => some (user.store conn session, false)
  | .deleted => some (user.store conn session, true)
  | .blocked => none
  | .faulted _ => none

theorem handle_deletes {env : Env} {conn : C} {results : List RecvResult}
    {sends : List SendResult} {user : User C} {out : User C × Bool}
    (h : handle env conn results sends user = some out)
    (hexit : ((Connection.empty.recv 0 results).any Connection.Received.exit) = true) :
    out.2 = true := by
  rw [handle, Session.processHttpRequest] at h
  cases hrecv : (user.session conn sends).conn.recv 0 results with
  | none =>
      rw [hrecv] at h
      cases h
  | some received =>
      rw [hrecv] at h
      simp only [Connection.recv_exit hrecv hexit, if_true] at h
      exact (Option.some.inj h) ▸ rfl

def callback (env : Env) (C : Type) [DecidableEq C] : Callback C (User C) :=
  ⟨handle env, handle_deletes⟩

end FalconLink.Http.Reactor
