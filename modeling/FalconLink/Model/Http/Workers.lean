import FalconLink.Foundation.Run
import FalconLink.Model.Http.HttpServer
import Mathlib.Logic.Function.Basic

/-! # Handlers of many connections

The connections of `C` share one cache. Each of them answers one request at a time, and the
accesses of different handlers follow each other in any order. A call of the cache is one access.
-/

namespace FalconLink.Http.Workers

inductive Worker where
  | idle
  /-- `rest` is what is left of the handler of `requestOp`. -/
  | answering (requestOp : Bytes) (rest : Code Reply)
  | deleted

/-- A response that was sent. -/
structure Sent (C : Type) where
  conn : C
  requestOp : Bytes
  responseBuf : Bytes
  deriving DecidableEq

structure State (C : Type) where
  cache : Cache
  workers : C → Worker
  sent : List (Sent C)

inductive Event (C : Type) where
  | request (conn : C) (requestOp : Bytes)
  | step (conn : C)
  | send (conn : C)

variable {C : Type} [DecidableEq C]

def initial (C : Type) (capacity : UInt64) (clock : ℕ → ℕ) : State C :=
  ⟨Cache.new capacity clock, fun _ => .idle, []⟩

def setWorker (s : State C) (conn : C) (worker : Worker) : State C :=
  { s with workers := Function.update s.workers conn worker }

/-- A handler that throws stays where it is. -/
def next (env : Env) (s : State C) : Event C → Option (State C)
  | .request conn requestOp =>
      match s.workers conn with
      | .idle => some (setWorker s conn
          (.answering requestOp (respond env.httpResourceDir requestOp)))
      | _ => none
  | .step conn =>
      match s.workers conn with
      | .answering requestOp rest => (rest.step (exec env) s.cache).map fun
          | .ok (rest', cache) => setWorker { s with cache } conn (.answering requestOp rest')
          | .error fault => setWorker s conn (.answering requestOp (.fail fault))
      | _ => none
  | .send conn =>
      match s.workers conn with
      | .answering requestOp (.ret reply) =>
          some (setWorker { s with sent := s.sent ++ [⟨conn, requestOp, reply.bytes⟩] } conn
            (if reply.noMoreParse then .deleted else .idle))
      | _ => none

end FalconLink.Http.Workers
