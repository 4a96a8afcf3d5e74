import FalconLink.Model.ThreadPool

/-! # The server

A server owns a pool and as many sub reactors as the pool has workers, each of which loops in a task
of the pool. Its main reactor accepts clients in the thread that calls `start`.
-/

namespace FalconLink.Server

open ThreadPool (Exception Task)

inductive Thrown where
  | exception (exception : Exception)
  | logicError (message : Bytes)
  /-- By a callback of the user. -/
  | other
  deriving DecidableEq, Repr

/-- The results of the system calls in the constructor of `Acceptor`. -/
structure AcceptorCalls where
  socket : ℤ
  reuseAddr : ℤ
  reusePort : ℤ
  bind : ℤ
  listen : ℤ
  deriving DecidableEq, Repr

/-- What the constructor of `Acceptor` throws. -/
def AcceptorCalls.failure (calls : AcceptorCalls) : Option Thrown :=
  if calls.socket = -1 then some (.exception ⟨.socketError, ascii "Create socket error"⟩)
  else if calls.reuseAddr = -1 ∨ calls.reusePort = -1 then
    some (.logicError (ascii "Socket: SetReusable() error"))
  else if calls.bind = -1 then some (.exception ⟨.socketError, ascii "Bind socket error"⟩)
  else if calls.listen < 0 then some (.exception ⟨.socketError, ascii "Socket listen error"⟩)
  else none

def callbackNotSet : Exception :=
  ⟨.callbackNotSet, ascii "Set handle callback before server starts"⟩

/-- Where the main thread is. -/
inductive Main where
  /-- In the constructor, which has called `addTask` for the first `count` sub reactors. -/
  | adding (count : ℕ)
  /-- The constructor has returned, and the main reactor does not loop. -/
  | ready
  | serving
  /-- The members are being destroyed, by `~Server` or as the constructor has failed and somebody
  catches what it has thrown. -/
  | destroying (failure : Option Thrown)
  | destroyed (failure : Option Thrown)
  deriving DecidableEq, Repr

/-- The `n` sub reactors of a server and the `n` workers of its pool. The task of sub reactor `i` is
the `i`-th one. -/
structure State (n : ℕ) where
  pool : ThreadPool.State Unit n
  main : Main
  handleSet : Bool
  /-- `quit_` of the sub reactors. -/
  quit : Fin n → Bool
  /-- The sub reactors that have been given a connection. -/
  connected : Fin n → Bool
  /-- The sub reactors whose loop has been left by what a callback has thrown. -/
  threw : Fin n → Bool
  /-- What `start` has thrown. -/
  thrown : List Thrown

inductive Event (n : ℕ) where
  /-- A step of a worker or of a call that the main thread has made to the pool. -/
  | pool (event : ThreadPool.Event Unit n)
  | addTask
  | makeAcceptor (calls : AcceptorCalls)
  | onHandle
  | start
  /-- The sub reactor is `rand() % sub_reactors_.size()`. -/
  | accept (i : Fin n)
  | callbackThrows (i : Fin n)
  /-- The accept callback or `setNonBlock` throws in the loop of the main reactor. -/
  | acceptThrows (thrown : Thrown)
  | destroy
  /-- After `~ThreadPool`, `sub_reactors_` is destroyed. -/
  | destroyReactors

variable {n : ℕ}

def construct (concurrency : ℤ) : State (ThreadPool.workerCount concurrency) where
  pool := ThreadPool.construct Unit concurrency
  main := .adding 0
  handleSet := false
  quit := fun _ => false
  connected := fun _ => false
  threw := fun _ => false
  thrown := []

/-- Whether the loop of a sub reactor is over. -/
def loopEnds (s : State n) (task : Task) : Bool :=
  if h : task < n then s.quit ⟨task, h⟩ || s.threw ⟨task, h⟩ else false

/-- Whether worker `w` runs the loop of sub reactor `i`. -/
def loops (s : State n) (i w : Fin n) : Prop :=
  s.pool.workers w = .running i .idle

instance (s : State n) (i w : Fin n) : Decidable (loops s i w) :=
  inferInstanceAs (Decidable (s.pool.workers w = .running i .idle))

/-- No callback reaches `thread_pool_`, which is private, and the main thread adds its tasks by
`Event.addTask`. -/
def permits (s : State n) : ThreadPool.Event Unit n → Bool
  | .call _ => false
  | .finish w =>
      match s.pool.workers w with
      | .running task _ => loopEnds s task
      | _ => false
  | .begin =>
      match s.main with
      | .destroying _ => true
      | _ => false
  | .checkStop _ | .enqueue _ | .notifyOne _ _ | .lock _ | .check _ | .sleep _ | .wakeSpuriously _
  | .take _ | .start _ | .store | .notifyAll | .join => true

def next (s : State n) : Event n → Option (State n)
  | .pool event =>
      if permits s event then (ThreadPool.next s.pool event).map fun pool => { s with pool }
      else none
  | .addTask =>
      match s.main with
      | .adding count =>
          if count < n then
            (ThreadPool.next s.pool (.call (.producer ()))).map fun pool =>
              { s with pool, main := .adding (count + 1) }
          else none
      | _ => none
  | .makeAcceptor calls =>
      if s.main = .adding n ∧ s.pool.producers () = .idle then
        match calls.failure with
        | some failure => some { s with main := .destroying (some failure) }
        | none => some { s with main := .ready }
      else none
  | .onHandle => if s.main = .ready then some { s with handleSet := true } else none
  | .start =>
      if s.main = .ready then
        some (if s.handleSet then { s with main := .serving }
        else { s with thrown := s.thrown ++ [.exception callbackNotSet] })
      else none
  | .accept i =>
      if s.main = .serving then some { s with connected := Function.update s.connected i true }
      else none
  | .callbackThrows i =>
      if s.connected i ∧ ∃ w, loops s i w then
        some { s with threw := Function.update s.threw i true }
      else none
  | .acceptThrows thrown =>
      if s.main = .serving then some { s with main := .ready, thrown := s.thrown ++ [thrown] }
      else none
  | .destroy => if s.main = .ready then some { s with main := .destroying none } else none
  | .destroyReactors =>
      match s.main with
      | .destroying failure =>
          if s.pool.destructor = .joined then
            some { s with quit := fun _ => true, main := .destroyed failure }
          else none
      | _ => none

end FalconLink.Server
