import FalconLink.Model.EventLoop

/-! # The echo server and its clients

The callback of the server sends back what it has read. A client sends what it is typed, and then
shows what one call of `::recv` gives it.
-/

namespace FalconLink.Echo

open EventLoop

/-! ## The server -/

/-- The connections of the server, and what the kernel has accepted on each of them. -/
structure User (C : Type) where
  conns : C → Connection
  accepted : C → Bytes

namespace User

def initial (C : Type) : User C :=
  ⟨fun _ => .empty, fun _ => []⟩

variable {C : Type} [DecidableEq C]

def set (user : User C) (conn : C) (connection : Connection) (accepted : Bytes) : User C where
  conns := Function.update user.conns conn connection
  accepted := Function.update user.accepted conn (user.accepted conn ++ accepted)

end User

variable {C : Type} [DecidableEq C]

/-- The argument of `onHandle`. -/
def handle (conn : C) (results : List RecvResult) (sends : List SendResult) (user : User C) :
    Option (User C × Bool) :=
  match (user.conns conn).recv 0 results with
  | none => none
  | some received =>
      if received.exit then some (user.set conn received.conn [], true)
      else if received.read ≠ 0 then
        let sent := (received.conn.writeToWriteBuffer received.conn.readAsString).send sends
        if sent.returned then some (user.set conn sent.conn.clearReadBuffer sent.accepted, false)
        else none
      else some (user.set conn received.conn [], false)

theorem handle_deletes {conn : C} {results : List RecvResult} {sends : List SendResult}
    {user : User C} {out : User C × Bool} (h : handle conn results sends user = some out)
    (hexit : ((Connection.empty.recv 0 results).any Connection.Received.exit) = true) :
    out.2 = true := by
  rw [handle] at h
  cases hrecv : (user.conns conn).recv 0 results with
  | none =>
      rw [hrecv] at h
      cases h
  | some received =>
      rw [hrecv] at h
      simp only [Connection.recv_exit hrecv hexit, if_true] at h
      exact (Option.some.inj h) ▸ rfl

def callback (C : Type) [DecidableEq C] : Callback C (User C) :=
  ⟨handle, handle_deletes⟩

/-! ## The clients -/

/-- `BUF_SIZE`. -/
def bufSize : ℕ := 2048

/-- Where a client is in the loop of `start`. -/
inductive Client where
  | reading
  | sending (buf : Bytes)
  /-- `sent` is how many bytes the call of `send` before has handed on. -/
  | receiving (sent : ℕ)
  | writing (buf : Bytes)
  | killed

/-- The server and its clients. The bytes that one side has sent reach the other side in order. -/
structure System (C : Type) where
  server : EventLoop.State C (User C)
  clients : C → Client
  typed : C → Bytes
  sent : C → Bytes
  received : C → Bytes
  shown : C → Bytes

/-- The results of `read`, `send`, `recv` and `write` are not looked at by the client, so that a
call may transfer less than it could. -/
inductive SystemEvent (C : Type) where
  | server (event : Event C)
  | read (conn : C) (buf : Bytes)
  | send (conn : C) (count : ℕ)
  | recv (conn : C) (count : ℕ)
  | write (conn : C) (count : ℕ)
  | kill (conn : C)

namespace System

def initial (C : Type) : System C where
  server := EventLoop.initial C (User.initial C)
  clients := fun _ => .reading
  typed := fun _ => []
  sent := fun _ => []
  received := fun _ => []
  shown := fun _ => []

/-- What the client has sent and the kernel of the server has not seen. -/
def toServer (s : System C) (conn : C) : Bytes :=
  (s.sent conn).drop (s.server.arrived conn).length

/-- What the server has sent and the client has not received. -/
def toClient (s : System C) (conn : C) : Bytes :=
  (s.server.user.accepted conn).drop (s.received conn).length

def setClient (s : System C) (conn : C) (client : Client) : System C :=
  { s with clients := Function.update s.clients conn client }

/-- What the network lets the server see: bytes that a client has sent, in order, and the end of
the stream of a client that is gone, after its last byte or with an error. -/
def Delivers (s : System C) : Event C → Prop
  | .arrive conn bytes => bytes <+: s.toServer conn
  | .finish conn ending =>
      match s.clients conn with
      | .killed => ending = .error ∨ s.toServer conn = []
      | _ => False
  | _ => True

instance (s : System C) : (event : Event C) → Decidable (Delivers s event)
  | .arrive conn bytes => inferInstanceAs (Decidable (bytes <+: s.toServer conn))
  | .finish conn ending =>
      match h : s.clients conn with
      | .killed => decidable_of_iff (ending = .error ∨ s.toServer conn = []) (by simp [Delivers, h])
      | .reading => isFalse (by simp [Delivers, h])
      | .sending _ => isFalse (by simp [Delivers, h])
      | .receiving _ => isFalse (by simp [Delivers, h])
      | .writing _ => isFalse (by simp [Delivers, h])
  | .addConnection _ => isTrue trivial
  | .poll => isTrue trivial
  | .invoke => isTrue trivial
  | .recv _ => isTrue trivial
  | .handle _ => isTrue trivial

/-- A `::recv` of a client gets nothing once the server has deleted the connection. -/
def next (pollSize : ℕ) (s : System C) : SystemEvent C → Option (System C)
  | .server event =>
      if Delivers s event then
        (EventLoop.next pollSize (callback C) s.server event).map fun server => { s with server }
      else none
  | .read conn buf =>
      match s.clients conn with
      | .reading =>
          if buf.length ≤ bufSize then
            some { setClient s conn (.sending buf) with
              typed := Function.update s.typed conn (s.typed conn ++ buf) }
          else none
      | _ => none
  | .send conn count =>
      match s.clients conn with
      | .sending buf =>
          if count ≤ buf.length then
            some { setClient s conn (.receiving count) with
              sent := Function.update s.sent conn (s.sent conn ++ buf.take count) }
          else none
      | _ => none
  | .recv conn count =>
      match s.clients conn with
      | .receiving _ =>
          if count ≤ bufSize ∧ count ≤ (s.toClient conn).length ∧
              (count = 0 → s.server.status conn = .deleted) then
            let buf := (s.toClient conn).take count
            some { setClient s conn (.writing buf) with
              received := Function.update s.received conn (s.received conn ++ buf) }
          else none
      | _ => none
  | .write conn count =>
      match s.clients conn with
      | .writing buf =>
          if count ≤ buf.length then
            some { setClient s conn .reading with
              shown := Function.update s.shown conn (s.shown conn ++ buf.take count) }
          else none
      | _ => none
  | .kill conn => some (setClient s conn .killed)

end System

end FalconLink.Echo
