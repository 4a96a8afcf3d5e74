import FalconLink.Verification.ThreadPool

/-! # Every accepted task runs once -/

namespace FalconLink.ThreadPool

open Waiting

variable {P : Type} {n : ℕ} {s s' : State P n}

/-- Tasks are dequeued in order, none of them starts twice, and when the workers have exited the
accepted ones have run to their end. -/
structure Safe (s : State P n) : Prop where
  dequeued_isPrefix : s.dequeued <+: s.enqueued
  started_nodup : s.started.Nodup
  accepted_ran : (∀ w, s.workers w = .exited) → ∀ task ∈ s.accepted, task ∈ s.finished

/-- A thread outside the pool calls `addTask` before `~ThreadPool` begins. -/
def CallsBefore (s : State P n) : Event P n → Prop
  | .call (.producer _) => s.destructor = .notBegun
  | _ => True

instance (s : State P n) : (event : Event P n) → Decidable (CallsBefore s event)
  | .call (.producer _) => inferInstanceAs (Decidable (s.destructor = .notBegun))
  | .call (.worker _) | .checkStop _ | .enqueue _ | .notifyOne _ _ | .lock _ | .check _
  | .sleep _ | .wakeSpuriously _ | .take _ | .start _ | .finish _ | .begin | .store | .notifyAll
  | .join => isTrue trivial

/-- A thread outside the pool enqueues in time: not when all workers have exited. -/
def EnqueuesInTime (s : State P n) : Event P n → Prop
  | .enqueue (.producer _) => ∃ w, s.workers w ≠ .exited
  | _ => True

instance (s : State P n) : (event : Event P n) → Decidable (EnqueuesInTime s event)
  | .enqueue (.producer _) => inferInstanceAs (Decidable (∃ w, s.workers w ≠ .exited))
  | .enqueue (.worker _) | .call _ | .checkStop _ | .notifyOne _ _ | .lock _ | .check _
  | .sleep _ | .wakeSpuriously _ | .take _ | .start _ | .finish _ | .begin | .store | .notifyAll
  | .join => isTrue trivial

/-! ## The mutex -/

/-- One worker at a time holds the mutex, and the predicate still holds when its wait is over. -/
structure Locked (s : State P n) : Prop where
  exclusive : ∀ w w', (s.workers w).holdsLock = true → (s.workers w').holdsLock = true → w = w'
  passing : ∀ w, s.workers w = .passing → s.stop = true ∨ s.tasks ≠ []

theorem Locked.setWorker (h : Locked s) {w : Fin n} {worker : Worker}
    (hlock : worker.holdsLock = true → (s.workers w).holdsLock = true ∨ isFree s)
    (hpassing : worker = .passing → s.stop = true ∨ s.tasks ≠ []) :
    Locked (setWorker s w worker) := by
  constructor
  · intro w₁ w₂ h₁ h₂
    have := h.exclusive w₁ w₂
    have := h.exclusive w w₁
    have := h.exclusive w w₂
    simp only [ThreadPool.setWorker, Function.update_apply] at h₁ h₂
    grind [isFree]
  · intro w' hw'
    have := h.passing w'
    simp only [ThreadPool.setWorker, Function.update_apply] at hw' ⊢
    grind

/-- The queue can only be shortened by the worker that holds the mutex. -/
theorem Locked.setTasks (h : Locked s) (tasks : List Task) (dequeued : List Task)
    {w : Fin n} (hworker : s.workers w = .passing) (worker : Worker)
    (hlock : worker.holdsLock = false) :
    Locked (ThreadPool.setWorker { s with tasks, dequeued } w worker) := by
  constructor
  · intro w₁ w₂ h₁ h₂
    have := h.exclusive w₁ w₂
    simp only [ThreadPool.setWorker, Function.update_apply] at h₁ h₂
    grind
  · intro w' hw'
    have := h.exclusive w w'
    simp only [ThreadPool.setWorker, Function.update_apply] at hw'
    grind [Worker.holdsLock]

theorem Locked.notifyAll (h : Locked s) : Locked (notifyAll s) := by
  constructor
  · intro w₁ w₂ h₁ h₂
    have := h.exclusive w₁ w₂
    simp only [ThreadPool.notifyAll] at h₁ h₂
    grind [Worker.holdsLock]
  · intro w hw
    have := h.passing w
    simp only [ThreadPool.notifyAll] at hw ⊢
    grind

section Mutex

variable [DecidableEq P]

theorem Locked.setCall (h : Locked s) (caller : Caller P n) (call : Call) :
    Locked (setCall s caller call) := by
  cases caller with
  | producer p => exact ⟨h.exclusive, h.passing⟩
  | worker w =>
      simp only [ThreadPool.setCall]
      split
      next => exact h.setWorker (fun hholds => by cases hholds) (fun hpassing => by cases hpassing)
      next => exact h

theorem Locked.step {event : Event P n} (h : Locked s) (hstep : Step s event s') : Locked s' := by
  cases hstep with
  | call caller hcall => exact h.setCall caller _
  | refuse caller hcall hstop =>
      have hrefused := h.setCall caller .idle
      exact ⟨hrefused.exclusive, hrefused.passing⟩
  | pass caller hcall hstop => exact h.setCall caller _
  | enqueue caller hcall hfree =>
      have hlonger : Locked { s with
          tasks := s.tasks ++ [s.enqueued.length]
          enqueued := s.enqueued ++ [s.enqueued.length] } :=
        ⟨h.exclusive, fun w hw => Or.inr (by simp)⟩
      exact hlonger.setCall caller _
  | @wake caller woken task hcall hwoken =>
      have hwake : Locked (ThreadPool.setWorker s woken .locking) := h.setWorker nofun nofun
      have hnotified := hwake.setCall caller .idle
      exact ⟨hnotified.exclusive, hnotified.passing⟩
  | wakeNone caller hcall hnone =>
      have hnotified := h.setCall caller .idle
      exact ⟨hnotified.exclusive, hnotified.passing⟩
  | lock w hworker hfree => exact h.setWorker (fun _ => Or.inr hfree) nofun
  | accept w hworker htrue =>
      exact h.setWorker (fun _ => Or.inl (by rw [hworker]; rfl)) fun _ => htrue
  | reject w hworker hstop htasks =>
      exact h.setWorker (fun _ => Or.inl (by rw [hworker]; rfl)) nofun
  | sleep w hworker => exact h.setWorker nofun nofun
  | wakeSpuriously w hworker => exact h.setWorker nofun nofun
  | exit w hworker hstop htasks => exact h.setWorker nofun nofun
  | take w hworker htasks => exact h.setTasks _ _ hworker _ rfl
  | @start w task hworker =>
      have hstarted : Locked (ThreadPool.setWorker s w (.running task .idle)) :=
        h.setWorker nofun nofun
      exact ⟨hstarted.exclusive, hstarted.passing⟩
  | finish w hworker =>
      have hfinished : Locked (ThreadPool.setWorker s w .locking) := h.setWorker nofun nofun
      exact ⟨hfinished.exclusive, hfinished.passing⟩
  | begin hstage => exact ⟨h.exclusive, h.passing⟩
  | store hstage => exact ⟨h.exclusive, fun _ _ => Or.inl rfl⟩
  | notifyAll hstage => exact ⟨h.notifyAll.exclusive, h.notifyAll.passing⟩
  | join hstage hexited => exact ⟨h.exclusive, h.passing⟩

theorem locked_initial (P : Type) (n : ℕ) : Locked (initial P n) where
  exclusive _ _ h := by cases h
  passing _ h := by cases h

theorem Locked.take_isSome (h : Locked s) {w : Fin n} (hworker : s.workers w = .passing) :
    (next s (.take w)).isSome := by
  have hpassing := h.passing w hworker
  simp only [next, hworker, if_true, take]
  split
  · rfl
  · cases htasks : s.tasks with
    | cons task tasks => rfl
    | nil => simp_all

/-- No worker takes the front of an empty queue. -/
theorem take_isSome {size : ℤ} {events : List (Event P (workerCount size))}
    {s : State P (workerCount size)} {w : Fin (workerCount size)}
    (hrun : Run.run next (construct P size) events = some s) (hworker : s.workers w = .passing) :
    (next s (.take w)).isSome := by
  have hlocked : Locked s :=
    Run.invariant' (fun _ _ _ hs h => hs.step (.of_next h)) (locked_initial P _) hrun
  exact hlocked.take_isSome hworker

end Mutex

/-! ## Tasks that are left behind -/

/-- When all workers have exited, they have left nothing in the queue. -/
def Drained (s : State P n) : Prop :=
  (∀ w, s.workers w = .exited) → s.tasks = []

theorem drained_of_worker (w : Fin n) (h : s.workers w ≠ .exited) : Drained s :=
  fun hexited => absurd (hexited w) h

theorem drained_setWorker {w : Fin n} {worker : Worker} (h : worker ≠ .exited) :
    Drained (setWorker s w worker) :=
  drained_of_worker w (by simpa [setWorker] using h)

theorem drained_notifyAll (s : State P n) : Drained (notifyAll s) ↔ Drained s := by
  have hexited : ∀ w, (notifyAll s).workers w = .exited ↔ s.workers w = .exited := by
    intro w
    by_cases hworker : s.workers w = .sleeping
    · simp [notifyAll, hworker]
    · simp [notifyAll, hworker]
  simp only [Drained, hexited]
  rfl

section Tasks

variable [DecidableEq P]

theorem drained_setCall (s : State P n) (caller : Caller P n) (call : Call) :
    Drained (setCall s caller call) ↔ Drained s := by
  cases caller with
  | producer p => rfl
  | worker w =>
      simp only [setCall]
      split
      next task _ hworker =>
        exact iff_of_true (drained_setWorker (fun hexited => by cases hexited))
          (drained_of_worker w (by simp [hworker]))
      next => rfl

theorem tasks_enqueue (s : State P n) (caller : Caller P n) : (enqueue s caller).tasks ≠ [] := by
  rw [enqueue, setCall_eq]
  simp

theorem drained_enqueue {caller : Caller P n} (hcall : s.call caller = some .checked) :
    Drained (enqueue s caller) ↔ Drained s ∧ EnqueuesInTime s (.enqueue caller) := by
  cases caller with
  | producer p =>
      have hafter : Drained (enqueue s (.producer p)) ↔ ∃ w, s.workers w ≠ .exited := by
        rw [Drained, imp_iff_not (tasks_enqueue s _), not_forall]
        rfl
      rw [hafter]
      exact ⟨fun hsome => ⟨fun hall => absurd hall (by simpa using hsome), hsome⟩, And.right⟩
  | worker w =>
      have hrunning : s.workers w ≠ .exited := by
        intro hworker
        simp [State.call, hworker, Worker.call] at hcall
      refine iff_of_true ((drained_setCall _ (.worker w) _).mpr ?_)
        ⟨drained_of_worker w hrunning, trivial⟩
      exact drained_of_worker w hrunning

/-- Only a thread outside the pool can leave a task behind. -/
theorem Step.drained {event : Event P n} (hstep : Step s event s') :
    Drained s' ↔ Drained s ∧ EnqueuesInTime s event := by
  cases hstep with
  | call caller hcall => exact (drained_setCall s caller _).trans (and_iff_left trivial).symm
  | refuse caller hcall hstop =>
      exact (drained_setCall s caller .idle).trans (and_iff_left trivial).symm
  | pass caller hcall hstop =>
      exact (drained_setCall s caller _).trans (and_iff_left trivial).symm
  | enqueue caller hcall hfree => exact drained_enqueue hcall
  | @wake caller woken task hcall hwoken =>
      have hafter : Drained (setCall (setWorker s woken .locking) caller .idle) :=
        (drained_setCall _ caller .idle).mpr (drained_setWorker nofun)
      exact iff_of_true hafter ⟨drained_of_worker woken (by simp [hwoken]), trivial⟩
  | wakeNone caller hcall hnone =>
      exact (drained_setCall s caller .idle).trans (and_iff_left trivial).symm
  | exit w hworker hstop htasks =>
      exact iff_of_true (fun _ => htasks) ⟨drained_of_worker w (by simp [hworker]), trivial⟩
  | lock w hworker | accept w hworker | reject w hworker | sleep w hworker
  | wakeSpuriously w hworker | take w hworker | start w hworker | finish w hworker =>
      exact iff_of_true (drained_setWorker nofun)
        ⟨drained_of_worker w (by simp [hworker]), trivial⟩
  | begin hstage => exact (and_iff_left trivial).symm
  | store hstage => exact (and_iff_left trivial).symm
  | notifyAll hstage => exact (drained_notifyAll s).trans (and_iff_left trivial).symm
  | join hstage hexited => exact (and_iff_left trivial).symm

/-! ## Runs -/

theorem inv_initial (P : Type) (n : ℕ) : WorkQueue.Inv (work (initial P n)) where
  numbers := rfl
  order := rfl
  held _ _ h := by cases h
  distinct _ _ _ h := by cases h
  unstarted _ _ h := by cases h
  started _ h := by cases h
  once := List.nodup_nil
  finished _ h := by cases h
  ran _ h := by cases h

theorem answered_initial (P : Type) (n : ℕ) : Answered (initial P n) where
  calls caller task h := by cases caller <;> cases h
  accepted _ h := by cases h
  answered _ h := by cases h

section Runs

variable {size : ℤ} {events : List (Event P (workerCount size))} {s : State P (workerCount size)}

theorem inv_run (hrun : Run.run next (construct P size) events = some s) :
    WorkQueue.Inv (work s) :=
  WorkQueue.inv_run (fun _ _ _ h => (Step.of_next h).work) (inv_initial P _) hrun

theorem answered_run (hrun : Run.run next (construct P size) events = some s) : Answered s :=
  Run.invariant' (fun _ _ _ hs h => hs.step (.of_next h)) (answered_initial P _) hrun

theorem drained_run (hrun : Run.run next (construct P size) events = some s) :
    Drained s ↔ Run.Along next EnqueuesInTime (construct P size) events := by
  have hiff := Run.along_iff (I := fun _ => True)
    (fun _ _ _ _ h => ⟨trivial, (Step.of_next h).drained⟩) trivial hrun
  have hinitial : Drained (construct P size) := fun _ => rfl
  rw [hiff, and_iff_right hinitial]

/-- When the workers have exited, every task that was enqueued has run or is left in the queue. -/
theorem ran_iff (hrun : Run.run next (construct P size) events = some s)
    (hexited : ∀ w, s.workers w = .exited) :
    (∀ task ∈ s.enqueued, task ∈ s.finished) ↔ s.tasks = [] := by
  refine (inv_run hrun).all_finished_iff fun w => ?_
  change (s.workers w).job = .idle
  rw [hexited w]
  rfl

theorem safe_of_along (hrun : Run.run next (construct P size) events = some s)
    (halong : Run.Along next EnqueuesInTime (construct P size) events) : Safe s where
  dequeued_isPrefix := (inv_run hrun).dequeued_isPrefix
  started_nodup := (inv_run hrun).once
  accepted_ran hexited task htask :=
    (ran_iff hrun hexited).mpr ((drained_run hrun).mpr halong hexited) task
      ((answered_run hrun).accepted task htask)

/-- When the workers have exited and no call is in progress, every enqueued task was accepted. -/
theorem accepted_of_idle (hrun : Run.run next (construct P size) events = some s)
    (hexited : ∀ w, s.workers w = .exited) (hidle : ∀ p, s.producers p = .idle) :
    ∀ task ∈ s.enqueued, task ∈ s.accepted := by
  intro task htask
  refine ((answered_run hrun).answered task htask).resolve_right ?_
  rintro ⟨caller, hcall⟩
  cases caller with
  | producer p => simp [State.call, hidle p] at hcall
  | worker w => simp [State.call, hexited w, Worker.call] at hcall

/-- Tasks leave the queue in order and start once in every run. The accepted ones have all run
when the workers have exited, provided that outside threads enqueue in time, and when no call is
in progress any more, only then. -/
theorem safe_iff (hrun : Run.run next (construct P size) events = some s) :
    s.dequeued <+: s.enqueued ∧ s.started.Nodup ∧
      (Run.Along next EnqueuesInTime (construct P size) events → Safe s) ∧
      ((∀ w, s.workers w = .exited) → (∀ p, s.producers p = .idle) →
        (Safe s ↔ Run.Along next EnqueuesInTime (construct P size) events)) := by
  refine ⟨(inv_run hrun).dequeued_isPrefix, (inv_run hrun).once, safe_of_along hrun, ?_⟩
  intro hexited hidle
  refine ⟨fun hsafe => ?_, safe_of_along hrun⟩
  have hran : ∀ task ∈ s.enqueued, task ∈ s.finished := fun task htask =>
    hsafe.accepted_ran hexited task (accepted_of_idle hrun hexited hidle task htask)
  exact (drained_run hrun).mp fun _ => (ran_iff hrun hexited).mp hran

end Runs

/-! ## Calls that are over when the destructor begins -/

/-- `~ThreadPool` begins when no thread outside the pool is in `addTask`, and none calls it then. -/
def CallsOver (s : State P n) : Event P n → Prop
  | .begin => ∀ p, s.producers p = .idle
  | .call (.producer _) => s.destructor = .notBegun
  | _ => True

structure Undisturbed (s : State P n) : Prop where
  idle : s.destructor ≠ .notBegun → ∀ p, s.producers p = .idle
  running : s.destructor = .notBegun → s.stop = false
  exited : ∀ w, s.workers w = .exited → s.stop = true

omit [DecidableEq P] in
theorem Undisturbed.setWorker (h : Undisturbed s) (w : Fin n) {worker : Worker}
    (hexited : worker = .exited → s.stop = true) : Undisturbed (setWorker s w worker) := by
  refine ⟨h.idle, h.running, fun w' hw' => ?_⟩
  have := h.exited w'
  simp only [ThreadPool.setWorker, Function.update_apply] at hw' ⊢
  grind

theorem Undisturbed.setCall (h : Undisturbed s) {caller : Caller P n} {old : Call} (call : Call)
    (hcall : s.call caller = some old) (hidle : old = .idle → CallsOver s (.call caller)) :
    Undisturbed (setCall s caller call) := by
  cases caller with
  | producer p =>
      refine ⟨fun hbegun => ?_, h.running, h.exited⟩
      have hold : s.producers p = old := Option.some.inj hcall
      exact absurd (hidle (hold.symm.trans (h.idle hbegun p))) hbegun
  | worker w =>
      simp only [ThreadPool.setCall]
      split
      next => exact h.setWorker w (fun hexited => by cases hexited)
      next => exact h

theorem Undisturbed.step {event : Event P n} (h : Undisturbed s) (hover : CallsOver s event)
    (hstep : Step s event s') : Undisturbed s' := by
  cases hstep with
  | call caller hcall => exact h.setCall _ hcall fun _ => hover
  | refuse caller hcall hstop =>
      have hrefused := h.setCall .idle hcall nofun
      exact ⟨hrefused.idle, hrefused.running, hrefused.exited⟩
  | pass caller hcall hstop => exact h.setCall _ hcall nofun
  | enqueue caller hcall hfree =>
      have hlonger : Undisturbed { s with
          tasks := s.tasks ++ [s.enqueued.length]
          enqueued := s.enqueued ++ [s.enqueued.length] } := ⟨h.idle, h.running, h.exited⟩
      exact hlonger.setCall _ hcall nofun
  | @wake caller woken task hcall hwoken =>
      have hwake : Undisturbed (ThreadPool.setWorker s woken .locking) := h.setWorker woken nofun
      have hnotified := hwake.setCall .idle (call_wake hcall hwoken) nofun
      exact ⟨hnotified.idle, hnotified.running, hnotified.exited⟩
  | wakeNone caller hcall hnone =>
      have hnotified := h.setCall .idle hcall nofun
      exact ⟨hnotified.idle, hnotified.running, hnotified.exited⟩
  | exit w hworker hstop htasks => exact h.setWorker w fun _ => hstop
  | lock w | accept w | reject w | sleep w | wakeSpuriously w => exact h.setWorker w nofun
  | @take w task tasks hworker htasks =>
      have htaken : Undisturbed (ThreadPool.setWorker s w (.taken task)) := h.setWorker w nofun
      exact ⟨htaken.idle, htaken.running, htaken.exited⟩
  | @start w task hworker =>
      have hstarted : Undisturbed (ThreadPool.setWorker s w (.running task .idle)) :=
        h.setWorker w nofun
      exact ⟨hstarted.idle, hstarted.running, hstarted.exited⟩
  | finish w hworker =>
      have hfinished : Undisturbed (ThreadPool.setWorker s w .locking) := h.setWorker w nofun
      exact ⟨hfinished.idle, hfinished.running, hfinished.exited⟩
  | begin hstage => exact ⟨fun _ => hover, nofun, h.exited⟩
  | store hstage =>
      exact ⟨fun _ => h.idle (by simp [hstage]), (fun hnot => by cases hnot), fun _ _ => rfl⟩
  | notifyAll hstage =>
      refine ⟨fun _ => h.idle (by simp [hstage]), (fun hnot => by cases hnot),
        fun w hw => h.exited w ?_⟩
      simp only [ThreadPool.notifyAll] at hw
      grind
  | join hstage hexited => exact ⟨fun _ => h.idle (by simp [hstage]), (fun hnot => by cases hnot), h.exited⟩

theorem workerCount_pos (size : ℤ) : 0 < workerCount size := by
  unfold workerCount minThreads
  split <;> omega

/-- Until the destructor begins no worker has exited, and then no thread outside enqueues. -/
theorem Undisturbed.enqueuesInTime {size : ℤ} {s s' : State P (workerCount size)}
    {event : Event P (workerCount size)} (h : Undisturbed s) (hstep : Step s event s') :
    EnqueuesInTime s event := by
  cases hstep with
  | enqueue caller hcall hfree =>
      cases caller with
      | producer p =>
          refine ⟨⟨0, workerCount_pos size⟩, fun hexited => ?_⟩
          have hstop := h.exited _ hexited
          by_cases hstage : s.destructor = .notBegun
          · rw [h.running hstage] at hstop
            cases hstop
          · simp [State.call, h.idle hstage p] at hcall
      | worker w => trivial
  | _ => trivial

/-- When the calls of other threads are over as the destructor begins, every accepted task runs. -/
theorem safe_of_callsOver {size : ℤ} {events : List (Event P (workerCount size))}
    {s : State P (workerCount size)} (hrun : Run.run next (construct P size) events = some s)
    (hover : Run.Along next CallsOver (construct P size) events) : Safe s := by
  have hinitial : Undisturbed (construct P size) := ⟨fun _ _ => rfl, fun _ => rfl, nofun⟩
  refine safe_of_along hrun (hover.imp ?_ ?_ hinitial hrun)
  · exact fun s event s' h hover hnext => h.step hover (.of_next hnext)
  · exact fun s event s' h _ hnext => h.enqueuesInTime (.of_next hnext)

end Tasks

/-! ## Two workers and one producer -/

def first : Fin (workerCount 2) :=
  ⟨0, Nat.zero_lt_two⟩

def second : Fin (workerCount 2) :=
  ⟨1, by decide⟩

/-- A worker finds `stop_` set and the queue empty. -/
def leaving (w : Fin (workerCount 2)) : List (Event Unit (workerCount 2)) :=
  [.lock w, .check w, .take w]

/-- The task is added before the destructor begins. -/
def addedBefore : List (Event Unit (workerCount 2)) :=
  [.call (.producer ()), .checkStop (.producer ()), .enqueue (.producer ()),
    .notifyOne (.producer ()) none, .begin, .store, .notifyAll, .lock first, .check first,
    .take first, .start first, .finish first] ++ leaving first ++ leaving second ++ [.join]

theorem safe_addedBefore :
    ∃ s, Run.run next (construct Unit 2) addedBefore = some s ∧ s.finished = [0] ∧ Safe s := by
  have hsome : (Run.run next (construct Unit 2) addedBefore).isSome := by decide
  exact ⟨_, (Option.some_get hsome).symm, by rfl,
    (safe_iff (Option.some_get hsome).symm).2.2.1 (by decide +kernel)⟩

/-- Between the check of `stop_` and the lock of the producer, the workers leave. -/
def enqueuedAfter : List (Event Unit (workerCount 2)) :=
  [.call (.producer ()), .checkStop (.producer ()), .begin, .store, .notifyAll] ++
    leaving first ++ leaving second ++ [.enqueue (.producer ()), .notifyOne (.producer ()) none]

theorem enqueuedAfter_exited : ∀ hsome w,
    ((Run.run next (construct Unit 2) enqueuedAfter).get hsome).workers w = .exited := by
  decide

theorem not_safe_enqueuedAfter :
    ¬∀ size events s, Run.run next (construct Unit size) events = some s →
      Run.Along next CallsBefore (construct Unit size) events → Safe s := by
  intro h
  have hsome : (Run.run next (construct Unit 2) enqueuedAfter).isSome := by decide
  have hsafe := h 2 enqueuedAfter _ (Option.some_get hsome).symm (by decide +kernel)
  have haccepted : ((Run.run next (construct Unit 2) enqueuedAfter).get hsome).accepted = [0] := by
    rfl
  have hfinished : ((Run.run next (construct Unit 2) enqueuedAfter).get hsome).finished = [] := by
    rfl
  have hran := hsafe.accepted_ran (enqueuedAfter_exited hsome)
  rw [haccepted, hfinished] at hran
  exact absurd hran (by decide)

end FalconLink.ThreadPool
