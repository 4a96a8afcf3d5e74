import FalconLink.Foundation.Run
import FalconLink.Model.Http.HttpServer

/-! # Requests while the files change

Requests are answered one after the other. Between two of them, files and the output of CGI
programs can change.
-/

namespace FalconLink.Http.History

/-- A request with the reply to it. -/
structure Exchange where
  requestOp : Bytes
  reply : Reply
  deriving DecidableEq

structure State where
  env : Env
  cache : Cache
  exchanges : List Exchange

inductive Event where
  | request (requestOp : Bytes)
  | change (fs : FileSystem) (run : Bytes → List Bytes → Except Fault Bytes)

def initial (env : Env) (capacity : UInt64) (clock : ℕ → ℕ) : State :=
  ⟨env, Cache.new capacity clock, []⟩

/-- A request whose handler does not return has no reply. An exception stays in the task of the
reactor, whose loop ends, and the other reactors go on. Such a handler has asked the cache for
nothing. -/
def next (s : State) : Event → Option State
  | .request requestOp =>
      match (respond s.env.httpResourceDir requestOp).run (exec s.env) s.cache with
      | .ok (reply, cache) =>
          some { s with cache, exchanges := s.exchanges ++ [⟨requestOp, reply⟩] }
      | .error _ => some s
  | .change fs run => some { s with env := { s.env with fs, run } }

end FalconLink.Http.History
