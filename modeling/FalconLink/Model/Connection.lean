import FalconLink.Foundation.Framing
import FalconLink.Model.Bytes

/-! # Connections

A connection reads from its socket into one buffer and writes to it from another. What the
calls of the operating system answer is given by a list of results.
-/

namespace FalconLink

open Framing

/-- `TEMP_BUF_SIZE`. -/
def tempBufSize : ℕ := 2048

/-- The bytes that one `::recv` has read. -/
structure Chunk where
  bytes : Bytes
  nonempty : bytes ≠ []
  fits : bytes.length ≤ tempBufSize

/-- A result of `::recv`. -/
inductive RecvResult where
  | chunk (data : Chunk)
  /-- -1 with `EINTR`. -/
  | interrupted
  /-- -1 with `EAGAIN` or `EWOULDBLOCK`. -/
  | again
  /-- 0. -/
  | closed
  /-- -1 with another error. -/
  | failed

/-- A result of `::send` on a non-empty rest. -/
inductive SendResult where
  /-- `more + 1` bytes are accepted, or all when there are fewer. -/
  | accepted (more : ℕ)
  /-- -1 with `EINTR`, `EAGAIN` or `EWOULDBLOCK`. -/
  | retry
  /-- -1 with another error. -/
  | failed
  deriving DecidableEq, Repr

structure Connection where
  readBuf : Bytes
  writeBuf : Bytes
  deriving DecidableEq, Repr

namespace Connection

def empty : Connection :=
  ⟨[], []⟩

def findAndPopTill (conn : Connection) (target : Bytes) : Option (Bytes × Connection) :=
  (popFrame target conn.readBuf).map fun (frame, rest) => (frame, { conn with readBuf := rest })

def writeToReadBuffer (conn : Connection) (bytes : Bytes) : Connection :=
  { conn with readBuf := conn.readBuf ++ bytes }

def writeToWriteBuffer (conn : Connection) (bytes : Bytes) : Connection :=
  { conn with writeBuf := conn.writeBuf ++ bytes }

def readAsString (conn : Connection) : Bytes :=
  conn.readBuf

def clearReadBuffer (conn : Connection) : Connection :=
  { conn with readBuf := [] }

def clearWriteBuffer (conn : Connection) : Connection :=
  { conn with writeBuf := [] }

/-- What `recv` returns, the number of bytes read and whether the client exits, and the
connection then. -/
structure Received where
  read : ℕ
  exit : Bool
  conn : Connection

/-- `recv` reads until a result ends the loop. Without one it does not return. -/
def recv (conn : Connection) (read : ℕ) : List RecvResult → Option Received
  | [] => none
  | .chunk data :: results =>
      (conn.writeToReadBuffer data.bytes).recv (read + data.bytes.length) results
  | .closed :: _ => some ⟨read, true, conn⟩
  | .interrupted :: results => conn.recv read results
  | .again :: _ => some ⟨read, false, conn⟩
  | .failed :: _ => some ⟨read, true, conn⟩

/-- The results alone decide whether a `recv` reports an exit. -/
theorem recv_exit {results : List RecvResult} {received : Received} {conn : Connection} {read : ℕ}
    (hrecv : conn.recv read results = some received)
    (hexit : (empty.recv 0 results).any Received.exit = true) : received.exit = true := by
  have hsame : ∀ conn conn' read read', (recv conn read results).map Received.exit =
      (recv conn' read' results).map Received.exit := by
    clear hrecv hexit
    induction results with
    | nil => exact fun _ _ _ _ => rfl
    | cons result results ih =>
        cases result with
        | chunk data => exact fun _ _ _ _ => ih _ _ _ _
        | interrupted => exact fun _ _ _ _ => ih _ _ _ _
        | again => exact fun _ _ _ _ => rfl
        | closed => exact fun _ _ _ _ => rfl
        | failed => exact fun _ _ _ _ => rfl
  have hends := hsame conn empty read 0
  rw [hrecv] at hends
  obtain ⟨other, hother, heq⟩ := Option.map_eq_some_iff.mp hends.symm
  rw [hother] at hexit
  exact heq.symm.trans hexit

/-- What became of a `send`: the bytes the kernel accepted, whether the call has returned, the
results of `::send` that are left, and the connection. -/
structure Sent where
  accepted : Bytes
  returned : Bool
  results : List SendResult
  conn : Connection
  deriving DecidableEq, Repr

/-- The loop of `send` on what is still to be written: the bytes accepted, whether the loop ends,
and the results that are left. -/
def sendLoop : Bytes → List SendResult → Bytes × Bool × List SendResult
  | [], results => ([], true, results)
  | _ :: _, [] => ([], false, [])
  | b :: rest, .accepted more :: results =>
      (b :: rest.take more ++ (sendLoop (rest.drop more) results).1,
        (sendLoop (rest.drop more) results).2)
  | b :: rest, .retry :: results => sendLoop (b :: rest) results
  | _ :: _, .failed :: results => ([], true, results)

/-- A call of `::send`: its place in the buffer, the number of bytes it offers, and its result. -/
structure SendCall where
  offset : ℕ
  length : ℕ
  result : SendResult
  deriving DecidableEq, Repr

/-- What `curr_write` is advanced by. -/
def SendCall.write (call : SendCall) : ℕ :=
  match call.result with
  | .accepted more => min (more + 1) call.length
  | _ => 0

/-- The calls of `::send` in the loop of `send` from the position `curr_write`. -/
def sendCalls (toWrite : ℕ) : ℕ → List SendResult → List SendCall
  | _, [] => []
  | currWrite, result :: results =>
      if currWrite < toWrite then
        let call : SendCall := ⟨currWrite, toWrite - currWrite, result⟩
        call :: if result = .failed then [] else sendCalls toWrite (currWrite + call.write) results
      else []

/-- The buffer is cleared on return, whether or not everything has been written. -/
def send (conn : Connection) (results : List SendResult) : Sent :=
  let (accepted, returned, left) := sendLoop conn.writeBuf results
  ⟨accepted, returned, left, if returned then conn.clearWriteBuffer else conn⟩

end Connection

end FalconLink
