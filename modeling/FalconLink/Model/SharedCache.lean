import FalconLink.Foundation.Run
import FalconLink.Model.Cache

/-! # A cache shared by threads

The threads of `T` call `tryLoad` and `tryInsert`. Each call takes the shared mutex in the
mode its code asks for, performs its memory accesses one at a time and releases the mutex.
-/

namespace FalconLink.SharedCache

open Cache

/-- `std::shared_mutex`: the threads that hold it in shared mode, and the one that holds it
exclusively. -/
structure SharedMutex (T : Type) where
  readers : List T
  writer : Option T

namespace SharedMutex

variable {T : Type} [DecidableEq T]

def free : SharedMutex T :=
  ⟨[], none⟩

def lockShared (m : SharedMutex T) (t : T) : Option (SharedMutex T) :=
  if m.writer.isNone then some { m with readers := t :: m.readers } else none

def unlockShared (m : SharedMutex T) (t : T) : SharedMutex T :=
  { m with readers := m.readers.erase t }

def lock (m : SharedMutex T) (t : T) : Option (SharedMutex T) :=
  if m.writer.isNone && m.readers.isEmpty then some { m with writer := some t } else none

def unlock (m : SharedMutex T) : SharedMutex T :=
  { m with writer := none }

end SharedMutex

/-- Whether an access is to a link field. -/
def onLink : Instr → Bool
  | .readPrev _ | .readNext _ | .writePrev _ _ | .writeNext _ _ => true
  | _ => false

/-- Whether the next access of a program is to a link field. -/
def linksNext {α : Type} : Code α → Bool
  | .call i _ => onLink i
  | _ => false

/-- A call relinks from its first access to a link field until it next reads the clock. A
lookup reads the clock when its node is back in the list. -/
def relinksAfter {α : Type} (relinking : Bool) : Code α → Bool
  | .call .getTimeUTC _ => false
  | .call i _ => relinking || onLink i
  | _ => relinking

inductive Thread where
  | idle
  | waiting (call : Call)
  /-- The call holds the mutex, and `rest` is what is left of it. -/
  | inside (call : Call) (relinking : Bool) (rest : Code call.Result)

structure State (T : Type) where
  cache : Cache
  mutex : SharedMutex T
  threads : T → Thread

inductive Event (T : Type) where
  | call (t : T) (call : Call)
  | acquire (t : T)
  | step (t : T)
  | release (t : T)

variable {T : Type} [DecidableEq T]

def initial (T : Type) (capacity : UInt64) (clock : ℕ → ℕ) : State T :=
  ⟨Cache.new capacity clock, .free, fun _ => .idle⟩

/-- The mode in which the code of a call takes the mutex: `std::shared_lock` in `tryLoad`,
`std::unique_lock` in `tryInsert`. -/
def acquire (m : SharedMutex T) (t : T) : Call → Option (SharedMutex T)
  | .tryLoad _ _ => m.lockShared t
  | .tryInsert _ _ => m.lock t

def release (m : SharedMutex T) (t : T) : Call → SharedMutex T
  | .tryLoad _ _ => m.unlockShared t
  | .tryInsert _ _ => m.unlock

def setThread (s : State T) (t : T) (thread : Thread) : State T :=
  { s with threads := Function.update s.threads t thread }

/-- A faulting access ends the call for good, with the mutex held. -/
def next (s : State T) : Event T → Option (State T)
  | .call t call =>
      match s.threads t with
      | .idle => some (setThread s t (.waiting call))
      | _ => none
  | .acquire t =>
      match s.threads t with
      | .waiting call => (acquire s.mutex t call).map fun mutex =>
          setThread { s with mutex } t (.inside call false call.code)
      | _ => none
  | .step t =>
      match s.threads t with
      | .inside call relinking rest => (rest.step exec s.cache).map fun
          | .ok (rest', cache) =>
              setThread { s with cache } t (.inside call (relinksAfter relinking rest) rest')
          | .error fault => setThread s t (.inside call relinking (.fail fault))
      | _ => none
  | .release t =>
      match s.threads t with
      | .inside call _ (.ret _) =>
          some (setThread { s with mutex := release s.mutex t call } t .idle)
      | _ => none

/-- No call is in progress. -/
def Quiescent (s : State T) : Prop :=
  ∀ t, s.threads t = .idle

end FalconLink.SharedCache
