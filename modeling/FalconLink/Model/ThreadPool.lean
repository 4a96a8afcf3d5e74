import FalconLink.Foundation.Waiting
import FalconLink.Model.Bytes
import Mathlib.Data.Int.Notation

/-! # The thread pool

The `n` workers of a pool take tasks from one queue. Tasks are added by the threads of `P`, which
are outside the pool, and by running tasks.
-/

namespace FalconLink.ThreadPool

open Waiting

/-- `MIN_THREADS`. -/
def minThreads : ℤ := 2

/-- The number of workers that the constructor starts, `std::max(size, MIN_THREADS)`. -/
def workerCount (size : ℤ) : ℕ :=
  (if size < minThreads then minThreads else size).toNat

inductive ExceptionType where
  | invalid
  | concurrencyError
  | socketError
  | callbackNotSet
  | outOfMemory
  deriving DecidableEq, Repr

structure Exception where
  type : ExceptionType
  message : Bytes
  deriving DecidableEq, Repr

def enqueueOnStopped : Exception :=
  ⟨.concurrencyError, ascii "enqueue on stopped ThreadPool"⟩

/-- The `packaged_task` of one call of `addTask`, named by its place in the order of enqueuing. -/
abbrev Task := ℕ

/-- Where a thread is in `addTask`. -/
inductive Call where
  | idle
  | called
  /-- `stop_` was not set. -/
  | checked
  /-- The lock is released, and the notification is still to come. -/
  | enqueued (task : Task)
  deriving DecidableEq, Repr

/-- Where a worker is in its loop. -/
inductive Worker where
  /-- Before the lock, also when it has left the wait set. -/
  | locking
  | checking
  /-- The predicate was false, and the worker is about to join the wait set. -/
  | rejected
  | sleeping
  | passing
  /-- The lock is released, and `task()` is still to come. -/
  | taken (task : Task)
  /-- In `task()`, which can itself call `addTask`. -/
  | running (task : Task) (call : Call)
  | exited
  deriving DecidableEq, Repr

def Worker.holdsLock : Worker → Bool
  | .checking | .rejected | .passing => true
  | _ => false

/-- The call that a worker makes. It makes one only when it runs a task. -/
def Worker.call : Worker → Option Call
  | .running _ call => some call
  | _ => none

structure State (P : Type) (n : ℕ) where
  stop : Bool
  tasks : List Task
  workers : Fin n → Worker
  producers : P → Call
  /-- Where `~ThreadPool` is: it stores `stop_`, notifies the workers and joins them. -/
  destructor : Stage
  enqueued : List Task
  dequeued : List Task
  started : List Task
  /-- The tasks that have returned or thrown, which `packaged_task` catches. -/
  finished : List Task
  /-- The tasks whose `addTask` has returned a future. -/
  accepted : List Task
  /-- What other calls of `addTask` have thrown. -/
  thrown : List Exception

/-- A thread that calls `addTask`. -/
inductive Caller (P : Type) (n : ℕ) where
  | producer (p : P)
  | worker (w : Fin n)
  deriving DecidableEq

/-- `woken` is the thread that `notify_one` wakes, if any of them waits. -/
inductive Event (P : Type) (n : ℕ) where
  | call (caller : Caller P n)
  | checkStop (caller : Caller P n)
  | enqueue (caller : Caller P n)
  | notifyOne (caller : Caller P n) (woken : Option (Fin n))
  | lock (w : Fin n)
  | check (w : Fin n)
  | sleep (w : Fin n)
  | wakeSpuriously (w : Fin n)
  | take (w : Fin n)
  | start (w : Fin n)
  | finish (w : Fin n)
  | begin
  | store
  | notifyAll
  | join

variable {P : Type} {n : ℕ}

def initial (P : Type) (n : ℕ) : State P n where
  stop := false
  tasks := []
  workers := fun _ => .locking
  producers := fun _ => .idle
  destructor := .notBegun
  enqueued := []
  dequeued := []
  started := []
  finished := []
  accepted := []
  thrown := []

/-- The constructor. -/
def construct (P : Type) (size : ℤ) : State P (workerCount size) :=
  initial P (workerCount size)

def setWorker (s : State P n) (w : Fin n) (worker : Worker) : State P n :=
  { s with workers := Function.update s.workers w worker }

/-- Whether no worker holds `tasks_mtx_`. In `addTask` it is held for one step only. -/
def isFree (s : State P n) : Prop :=
  ∀ w, (s.workers w).holdsLock = false

instance (s : State P n) : Decidable (isFree s) :=
  inferInstanceAs (Decidable (∀ w, (s.workers w).holdsLock = false))

/-! ## `addTask` -/

def State.call (s : State P n) : Caller P n → Option Call
  | .producer p => some (s.producers p)
  | .worker w => (s.workers w).call

def setCall [DecidableEq P] (s : State P n) (caller : Caller P n) (call : Call) : State P n :=
  match caller with
  | .producer p => { s with producers := Function.update s.producers p call }
  | .worker w =>
      match s.workers w with
      | .running task _ => setWorker s w (.running task call)
      | _ => s

def enqueue [DecidableEq P] (s : State P n) (caller : Caller P n) : State P n :=
  let newTask := s.enqueued.length
  setCall { s with tasks := s.tasks ++ [newTask], enqueued := s.enqueued ++ [newTask] } caller
    (.enqueued newTask)

/-- `notify_one` wakes one of the threads that wait, if there are any. -/
def notifyOne (s : State P n) : Option (Fin n) → Option (State P n)
  | some w => if s.workers w = .sleeping then some (setWorker s w .locking) else none
  | none => if ∀ w, s.workers w ≠ .sleeping then some s else none

/-! ## The worker loop and `~ThreadPool` -/

/-- An access to the front of an empty queue would be undefined. -/
def take (s : State P n) (w : Fin n) : Option (State P n) :=
  if s.stop ∧ s.tasks = [] then some (setWorker s w .exited)
  else
    match s.tasks with
    | [] => none
    | task :: tasks =>
        some (setWorker { s with tasks, dequeued := s.dequeued ++ [task] } w (.taken task))

def notifyAll (s : State P n) : State P n :=
  { s with workers := fun w => if s.workers w = .sleeping then .locking else s.workers w }

/-! ## The steps -/

def next [DecidableEq P] (s : State P n) : Event P n → Option (State P n)
  | .call caller =>
      if s.call caller = some .idle then some (setCall s caller .called) else none
  | .checkStop caller =>
      if s.call caller = some .called then
        some (if s.stop then
          { setCall s caller .idle with thrown := s.thrown ++ [enqueueOnStopped] }
        else setCall s caller .checked)
      else none
  | .enqueue caller =>
      if s.call caller = some .checked ∧ isFree s then some (enqueue s caller) else none
  | .notifyOne caller woken =>
      match s.call caller with
      | some (.enqueued task) => (notifyOne s woken).map fun s =>
          { setCall s caller .idle with accepted := s.accepted ++ [task] }
      | _ => none
  | .lock w =>
      if s.workers w = .locking ∧ isFree s then some (setWorker s w .checking) else none
  | .check w =>
      if s.workers w = .checking then
        some (setWorker s w (if s.stop ∨ s.tasks ≠ [] then .passing else .rejected))
      else none
  | .sleep w => if s.workers w = .rejected then some (setWorker s w .sleeping) else none
  | .wakeSpuriously w =>
      if s.workers w = .sleeping then some (setWorker s w .locking) else none
  | .take w => if s.workers w = .passing then take s w else none
  | .start w =>
      match s.workers w with
      | .taken task =>
          some (setWorker { s with started := s.started ++ [task] } w (.running task .idle))
      | _ => none
  | .finish w =>
      match s.workers w with
      | .running task .idle =>
          some (setWorker { s with finished := s.finished ++ [task] } w .locking)
      | _ => none
  | .begin =>
      if s.destructor = .notBegun then some { s with destructor := .begun } else none
  | .store =>
      if s.destructor = .begun then some { s with stop := true, destructor := .stored } else none
  | .notifyAll =>
      if s.destructor = .stored then some { notifyAll s with destructor := .notified } else none
  | .join =>
      if s.destructor = .notified ∧ ∀ w, s.workers w = .exited then
        some { s with destructor := .joined }
      else none

end FalconLink.ThreadPool
