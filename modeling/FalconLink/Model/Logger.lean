import FalconLink.Foundation.Waiting
import FalconLink.Model.Bytes
import Mathlib.Data.Int.Notation
import Mathlib.Logic.Function.Basic

/-! # The logger

The threads of `P` push logs, and the writer thread hands them to `log_strategy_` in batches.
-/

namespace FalconLink.Logger

open Waiting

/-- `COUNT_THRESHOLD` and `REFRESH_THRESHOLD`, in microseconds. -/
def countThreshold : ℕ := 1000
def refreshThreshold : ℤ := 3000

inductive LogLevel where
  | info
  | warning
  | error
  | fatal
  deriving DecidableEq, Repr

def logLevelNames : LogLevel → Bytes
  | .info => ascii "INFO: "
  | .warning => ascii "WARNING: "
  | .error => ascii "ERROR: "
  | .fatal => ascii "FATAL: "

/-- The constructor of `Log`, with the date as it is printed. -/
def stamp (date : Bytes) (logLevel : LogLevel) (logMsg : Bytes) : Bytes :=
  date ++ logLevelNames logLevel ++ logMsg ++ ascii "\n"

/-- A pushed log. Its place in the order of the pushes tells it from others of the same text. -/
structure Log where
  number : ℕ
  stampedMsg : Bytes
  deriving DecidableEq, Repr

/-- Where a thread is in `pushLog`. -/
inductive Producer where
  | idle
  | locking (stampedMsg : Bytes)
  /-- The lock is released, and the notification is still to come. -/
  | unlocked (log : Log) (shouldNotify : Bool)

/-- Where the writer thread is in `LogWriting`. -/
inductive Writer where
  /-- Before the lock, also when it has left the wait set. -/
  | locking
  | checking
  /-- The predicate was false, and the writer is about to join the wait set. -/
  | rejected
  | sleeping
  | passing
  /-- The writer has released the lock and is about to call `log_strategy_`. -/
  | writing
  /-- Before the test of `done_`. After a pass without logs the lock is still held. -/
  | testing (locked : Bool)
  | exited
  deriving DecidableEq, Repr

def Writer.holdsLock : Writer → Bool
  | .checking | .rejected | .passing => true
  | .testing locked => locked
  | .locking | .sleeping | .writing | .exited => false

structure State (P : Type) where
  done : Bool
  /-- In microseconds. -/
  lastFlush : ℤ
  queue : List Log
  /-- `writer_queue` of the writer thread. -/
  writerQueue : List Log
  writer : Writer
  producers : P → Producer
  /-- Where `~Logger` is: it stores `done_`, notifies the writer and joins it. -/
  destructor : Stage
  /-- All logs in the order of the pushes. -/
  pushed : List Log
  /-- The batches that `log_strategy_` was called with. -/
  handed : List Log
  /-- The logs whose `pushLog` has returned. -/
  returned : List Log
  /-- Those of them whose `pushLog` returned before `~Logger` began. -/
  early : List Log

/-- `now` is what `getCurrentTime` returns, in milliseconds. -/
inductive Event (P : Type) where
  | call (p : P) (date : Bytes) (logLevel : LogLevel) (msg : Bytes)
  | push (p : P) (now : ℤ)
  | ret (p : P)
  | lock
  | check (now : ℤ)
  | sleep
  | wakeSpuriously
  | swap
  | write (now : ℤ)
  | test
  | begin
  | store
  | notify
  | join

/-- `last_flush_` is set when the logger is constructed. -/
def initial (P : Type) (now : ℤ) : State P where
  done := false
  lastFlush := now * 1000
  queue := []
  writerQueue := []
  writer := .locking
  producers := fun _ => .idle
  destructor := .notBegun
  pushed := []
  handed := []
  returned := []
  early := []

variable {P : Type}

/-- Whether the last flush is longer ago than the threshold. -/
def isStale (s : State P) (now : ℤ) : Bool :=
  now * 1000 - s.lastFlush > refreshThreshold

def isLong (queue : List Log) : Bool :=
  queue.length > countThreshold

/-- `notify_one`: the only thread that waits is the writer. -/
def notifyOne (s : State P) : State P :=
  { s with writer := if s.writer = .sleeping then .locking else s.writer }

/-! ## `pushLog` -/

section Producers

variable [DecidableEq P]

def setProducer (s : State P) (p : P) (producer : Producer) : State P :=
  { s with producers := Function.update s.producers p producer }

/-- The statements of `pushLog` under the lock. -/
def push (s : State P) (p : P) (stampedMsg : Bytes) (now : ℤ) : State P :=
  let log : Log := ⟨s.pushed.length, stampedMsg⟩
  let queue := s.queue ++ [log]
  setProducer { s with queue, pushed := s.pushed ++ [log] } p
    (.unlocked log (isStale s now || isLong queue))

def ret (s : State P) (p : P) (log : Log) (shouldNotify : Bool) : State P :=
  let notified := if shouldNotify then notifyOne s else s
  setProducer { notified with returned := s.returned ++ [log] } p .idle

end Producers

/-! ## `LogWriting` -/

def predicate (s : State P) (now : ℤ) : Bool :=
  s.done || isLong s.queue || isStale s now

/-- The lock is released when there are logs to write. -/
def swap (s : State P) : State P :=
  if s.queue ≠ [] then
    { s with queue := s.writerQueue, writerQueue := s.queue, writer := .writing }
  else { s with writer := .testing true }

def write (s : State P) (now : ℤ) : State P :=
  { s with
    handed := s.handed ++ s.writerQueue
    lastFlush := now * 1000
    writerQueue := []
    writer := .testing false }

/-! ## The steps -/

/-- Whatever the stage of `~Logger`, any thread can call `pushLog`. -/
def next [DecidableEq P] (s : State P) : Event P → Option (State P)
  | .call p date logLevel msg =>
      match s.producers p with
      | .idle => some (setProducer s p (.locking (stamp date logLevel msg)))
      | _ => none
  | .push p now =>
      match s.producers p with
      | .locking stampedMsg => if s.writer.holdsLock then none else some (push s p stampedMsg now)
      | _ => none
  | .ret p =>
      match s.producers p with
      | .unlocked log shouldNotify => some (ret s p log shouldNotify)
      | _ => none
  | .lock => if s.writer = .locking then some { s with writer := .checking } else none
  | .check now =>
      if s.writer = .checking then
        some { s with writer := if predicate s now then .passing else .rejected }
      else none
  | .sleep => if s.writer = .rejected then some { s with writer := .sleeping } else none
  | .wakeSpuriously => if s.writer = .sleeping then some { s with writer := .locking } else none
  | .swap => if s.writer = .passing then some (swap s) else none
  | .write now => if s.writer = .writing then some (write s now) else none
  | .test =>
      match s.writer with
      | .testing _ => some { s with writer := if s.done then .exited else .locking }
      | _ => none
  | .begin =>
      if s.destructor = .notBegun then
        some { s with destructor := .begun, early := s.returned }
      else none
  | .store =>
      if s.destructor = .begun then some { s with done := true, destructor := .stored } else none
  | .notify =>
      if s.destructor = .stored then some { notifyOne s with destructor := .notified } else none
  | .join =>
      if s.destructor = .notified ∧ s.writer = .exited then some { s with destructor := .joined }
      else none

end FalconLink.Logger
