import FalconLink.Verification.Logger
import FalconLink.Verification.ThreadPool

/-! # Waking the sleepers at the end

`~ThreadPool` and `~Logger` set their flag without the mutex of the wait and then notify.
-/

namespace FalconLink

open Waiting

namespace ThreadPool

variable {P : Type} {n : ℕ} {s : State P n}

/-- `~ThreadPool` has set the flag and notified all workers, and one of them sleeps. -/
structure Stranded (s : State P n) : Prop where
  notified : s.destructor.hasNotified = true
  stop : s.stop = true
  sleeping : ∃ w, s.workers w = .sleeping

/-- No call of `addTask` is in progress, so nobody is going to notify. -/
def Quiet (s : State P n) : Prop :=
  ∀ caller call, s.call caller = some call → call = .idle

def WakesOnNotify : Event P n → Prop
  | .wakeSpuriously _ => False
  | _ => True

instance (event : Event P n) : Decidable (WakesOnNotify event) := by
  unfold WakesOnNotify
  split <;> infer_instance

/-- `~ThreadPool` notifies when no worker is between the check of the predicate and its sleep. -/
def NotifiesAwake (s : State P n) : Event P n → Prop
  | .notifyAll => ∀ w, s.workers w ≠ .rejected
  | _ => True

instance (s : State P n) (event : Event P n) : Decidable (NotifiesAwake s event) := by
  unfold NotifiesAwake
  split <;> infer_instance

theorem Worker.phase_eq_rejected {worker : Worker} :
    worker.phase = .rejected ↔ worker = .rejected := by
  cases worker <;> simp [Worker.phase]

theorem not_stranded_of_settled (h : Settled (waits s)) : ¬Stranded s := by
  rintro ⟨hnotified, -, w, hsleeping⟩
  have haway := h.away hnotified w
  simp [waits, hsleeping, Worker.phase] at haway

variable [DecidableEq P]

theorem calm {s' : State P n} {event : Event P n} (hawake : NotifiesAwake s event)
    (hstep : Step s event s') : Calm (waits s) (waits s') := by
  cases hstep with
  | notifyAll hstage => exact fun _ _ w => mt Worker.phase_eq_rejected.mp (hawake w)
  | call | refuse | pass | enqueue | wake | wakeNone => exact .of_stage_eq destructor_setCall
  | begin hstage | store hstage | join hstage =>
      exact fun hstored => absurd (hstage.symm.trans hstored) nofun
  | _ => exact .of_stage_eq rfl

theorem settled_initial (P : Type) (n : ℕ) : Settled (waits (initial P n)) :=
  ⟨rfl, fun hnotified => by cases hnotified⟩

theorem settled_run {events : List (Event P n)}
    (hrun : Run.run next (initial P n) events = some s)
    (halong : Run.Along next NotifiesAwake (initial P n) events) : Settled (waits s) :=
  Waiting.settled_run (fun _ _ _ h => (Step.of_next h).waits)
    (fun _ _ _ hP h => calm hP (.of_next h)) (settled_initial P n) halong hrun

/-- A worker that is notified before its sleep misses the notification. -/
theorem stranded_of_rejected {s₁ : State P n} {w : Fin n} (hworker : s.workers w = .rejected)
    (hstop : s.stop = true) (hnotify : next s .notifyAll = some s₁) :
    ∃ s₂, next s₁ (.sleep w) = some s₂ ∧ Stranded s₂ := by
  obtain ⟨-, rfl⟩ := Run.of_guard hnotify
  have hrejected : (notifyAll s).workers w = .rejected := by simp [notifyAll, hworker]
  refine ⟨_, if_pos hrejected, rfl, hstop, w, ?_⟩
  simp [setWorker]

end ThreadPool

namespace Logger

variable {P : Type} {s : State P}

/-- `~Logger` has set the flag and notified the writer, and the writer sleeps. -/
structure Stranded (s : State P) : Prop where
  notified : s.destructor.hasNotified = true
  done : s.done = true
  sleeping : s.writer = .sleeping

/-- No call of `pushLog` is in progress, so nobody is going to notify. -/
def Quiet (s : State P) : Prop :=
  ∀ p, s.producers p = .idle

def WakesOnNotify : Event P → Prop
  | .wakeSpuriously => False
  | _ => True

instance : (event : Event P) → Decidable (WakesOnNotify event)
  | .wakeSpuriously => isFalse id
  | .call _ _ _ _ | .push _ _ | .ret _ | .lock | .check _ | .sleep | .swap | .write _ | .test
  | .begin | .store | .notify | .join => isTrue trivial

/-- `~Logger` notifies when the writer is not between the check of the predicate and its sleep. -/
def NotifiesAwake (s : State P) : Event P → Prop
  | .notify => s.writer ≠ .rejected
  | _ => True

instance (s : State P) : (event : Event P) → Decidable (NotifiesAwake s event)
  | .notify => inferInstanceAs (Decidable (s.writer ≠ .rejected))
  | .call _ _ _ _ | .push _ _ | .ret _ | .lock | .check _ | .sleep | .wakeSpuriously | .swap
  | .write _ | .test | .begin | .store | .join => isTrue trivial

theorem Writer.phase_eq_rejected {writer : Writer} :
    writer.phase = .rejected ↔ writer = .rejected := by
  cases writer <;> simp [Writer.phase]

theorem not_stranded_of_settled (h : Settled (waits s)) : ¬Stranded s := by
  rintro ⟨hnotified, -, hsleeping⟩
  have haway := h.away hnotified ()
  simp [waits, hsleeping, Writer.phase] at haway

variable [DecidableEq P]

theorem calm {s' : State P} {event : Event P} (hawake : NotifiesAwake s event)
    (hstep : Step s event s') : Calm (waits s) (waits s') := by
  cases hstep with
  | notify hstage => exact fun _ _ _ => mt Writer.phase_eq_rejected.mp hawake
  | begin hstage | store hstage | join hstage =>
      exact fun hstored => absurd (hstage.symm.trans hstored) nofun
  | @ret p log shouldNotify hp => cases shouldNotify <;> exact .of_stage_eq rfl
  | swap hwriter => exact .of_stage_eq (congrArg Waiting.State.stage (waits_swap hwriter))
  | _ => exact .of_stage_eq rfl

theorem settled_initial (P : Type) (now : ℤ) : Settled (waits (initial P now)) :=
  ⟨rfl, fun hnotified => by cases hnotified⟩

theorem settled_run {now : ℤ} {events : List (Event P)}
    (hrun : Run.run next (initial P now) events = some s)
    (halong : Run.Along next NotifiesAwake (initial P now) events) : Settled (waits s) :=
  Waiting.settled_run (fun _ _ _ h => (Step.of_next h).waits)
    (fun _ _ _ hP h => calm hP (.of_next h)) (settled_initial P now) halong hrun

/-- A writer that is notified before its sleep misses the notification. -/
theorem stranded_of_rejected {s₁ : State P} (hwriter : s.writer = .rejected) (hdone : s.done = true)
    (hnotify : next s .notify = some s₁) :
    ∃ s₂, next s₁ .sleep = some s₂ ∧ Stranded s₂ := by
  obtain ⟨-, rfl⟩ := Run.of_guard hnotify
  have hrejected : (notifyOne s).writer = .rejected := by simp [notifyOne, hwriter]
  exact ⟨_, if_pos hrejected, rfl, hdone, rfl⟩

end Logger

namespace Shutdown

/-- In both programs nobody is left asleep, whatever the other threads do, provided that the
notification does not come between a failed check and the sleep that follows it. -/
theorem never_stranded {P Q : Type} [DecidableEq P] [DecidableEq Q] {size : ℤ} {now : ℤ}
    {poolEvents : List (ThreadPool.Event P (ThreadPool.workerCount size))}
    {logEvents : List (Logger.Event Q)}
    {pool : ThreadPool.State P (ThreadPool.workerCount size)} {logger : Logger.State Q}
    (hpool : Run.run ThreadPool.next (ThreadPool.construct P size) poolEvents = some pool)
    (hlogger : Run.run Logger.next (Logger.initial Q now) logEvents = some logger) :
    (Run.Along ThreadPool.next ThreadPool.NotifiesAwake (ThreadPool.construct P size) poolEvents →
      ¬ThreadPool.Stranded pool) ∧
    (Run.Along Logger.next Logger.NotifiesAwake (Logger.initial Q now) logEvents →
      ¬Logger.Stranded logger) := by
  constructor
  · intro halong
    exact ThreadPool.not_stranded_of_settled (ThreadPool.settled_run hpool halong)
  · intro halong
    exact Logger.not_stranded_of_settled (Logger.settled_run hlogger halong)

/-- The first worker of a pool sleeps and is woken. -/
def poolWoken : List (ThreadPool.Event Unit (ThreadPool.workerCount 2)) :=
  [.lock ⟨0, by decide⟩, .check ⟨0, by decide⟩, .sleep ⟨0, by decide⟩, .begin, .store, .notifyAll]

def writerWoken : List (Logger.Event Unit) :=
  [.lock, .check 0, .sleep, .begin, .store, .notify]

theorem never_stranded_woken :
    ∃ pool logger, Run.run ThreadPool.next (ThreadPool.construct Unit 2) poolWoken = some pool ∧
      Run.run Logger.next (Logger.initial Unit 0) writerWoken = some logger ∧
      pool.destructor = .notified ∧ logger.destructor = .notified ∧
      ¬ThreadPool.Stranded pool ∧ ¬Logger.Stranded logger := by
  have hpool : (Run.run ThreadPool.next (ThreadPool.construct Unit 2) poolWoken).isSome := by
    decide
  have hlogger : (Run.run Logger.next (Logger.initial Unit 0) writerWoken).isSome := by decide
  have hnever := never_stranded (Option.some_get hpool).symm (Option.some_get hlogger).symm
  exact ⟨_, _, (Option.some_get hpool).symm, (Option.some_get hlogger).symm, by rfl, by rfl,
    hnever.1 (by decide +kernel), hnever.2 (by decide +kernel)⟩

/-- The destructor stores the flag and notifies between the check and the sleep. -/
def poolMissed : List (ThreadPool.Event Unit (ThreadPool.workerCount 2)) :=
  [.lock ⟨0, by decide⟩, .check ⟨0, by decide⟩, .begin, .store, .notifyAll, .sleep ⟨0, by decide⟩]

def writerMissed : List (Logger.Event Unit) :=
  [.lock, .check 0, .begin, .store, .notify, .sleep]

theorem poolMissed_call : ∀ hsome w,
    (((Run.run ThreadPool.next (ThreadPool.construct Unit 2) poolMissed).get hsome).workers w).call =
      none := by
  decide

theorem stranded_missed :
    (¬∀ size events s, Run.run ThreadPool.next (ThreadPool.construct Unit size) events = some s →
      (∀ event ∈ events, ThreadPool.WakesOnNotify event) →
      ¬(ThreadPool.Stranded s ∧ ThreadPool.Quiet s)) ∧
    ¬∀ now events s, Run.run Logger.next (Logger.initial Unit now) events = some s →
      (∀ event ∈ events, Logger.WakesOnNotify event) → ¬(Logger.Stranded s ∧ Logger.Quiet s) := by
  constructor
  · intro h
    have hsome : (Run.run ThreadPool.next (ThreadPool.construct Unit 2) poolMissed).isSome := by
      decide
    refine h 2 poolMissed _ (Option.some_get hsome).symm (by decide)
      ⟨⟨rfl, rfl, ⟨0, by decide⟩, rfl⟩, ?_⟩
    intro caller call hcall
    cases caller with
    | producer p => exact (Option.some.inj hcall).symm
    | worker w => exact absurd ((poolMissed_call hsome w).symm.trans hcall) nofun
  · intro h
    have hsome : (Run.run Logger.next (Logger.initial Unit 0) writerMissed).isSome := by decide
    exact h 0 writerMissed _ (Option.some_get hsome).symm (by decide) ⟨⟨rfl, rfl, rfl⟩, fun _ => rfl⟩

end Shutdown

end FalconLink
