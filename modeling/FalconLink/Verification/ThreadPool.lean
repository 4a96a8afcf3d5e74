import FalconLink.Foundation.WorkQueue
import FalconLink.Model.ThreadPool

/-! # Tasks of the thread pool -/

namespace FalconLink.ThreadPool

open Waiting

variable {P : Type} {n : ℕ} {s s' : State P n}

/-! ## The steps -/

section Steps

variable [DecidableEq P]

/-- What an event does, and when it can happen. -/
inductive Step (s : State P n) : Event P n → State P n → Prop where
  | call (caller) (hcall : s.call caller = some .idle) :
      Step s (.call caller) (setCall s caller .called)
  | refuse (caller) (hcall : s.call caller = some .called) (hstop : s.stop = true) :
      Step s (.checkStop caller)
        { setCall s caller .idle with thrown := s.thrown ++ [enqueueOnStopped] }
  | pass (caller) (hcall : s.call caller = some .called) (hstop : s.stop = false) :
      Step s (.checkStop caller) (setCall s caller .checked)
  | enqueue (caller) (hcall : s.call caller = some .checked) (hfree : isFree s) :
      Step s (.enqueue caller) (enqueue s caller)
  | wake (caller) {woken task} (hcall : s.call caller = some (.enqueued task))
      (hwoken : s.workers woken = .sleeping) :
      Step s (.notifyOne caller (some woken))
        { setCall (setWorker s woken .locking) caller .idle with
          accepted := s.accepted ++ [task] }
  | wakeNone (caller) {task} (hcall : s.call caller = some (.enqueued task))
      (hnone : ∀ w, s.workers w ≠ .sleeping) :
      Step s (.notifyOne caller none)
        { setCall s caller .idle with accepted := s.accepted ++ [task] }
  | lock (w) (hworker : s.workers w = .locking) (hfree : isFree s) :
      Step s (.lock w) (setWorker s w .checking)
  | accept (w) (hworker : s.workers w = .checking) (htrue : s.stop = true ∨ s.tasks ≠ []) :
      Step s (.check w) (setWorker s w .passing)
  | reject (w) (hworker : s.workers w = .checking) (hstop : s.stop = false)
      (htasks : s.tasks = []) : Step s (.check w) (setWorker s w .rejected)
  | sleep (w) (hworker : s.workers w = .rejected) : Step s (.sleep w) (setWorker s w .sleeping)
  | wakeSpuriously (w) (hworker : s.workers w = .sleeping) :
      Step s (.wakeSpuriously w) (setWorker s w .locking)
  | exit (w) (hworker : s.workers w = .passing) (hstop : s.stop = true) (htasks : s.tasks = []) :
      Step s (.take w) (setWorker s w .exited)
  | take (w) {task tasks} (hworker : s.workers w = .passing) (htasks : s.tasks = task :: tasks) :
      Step s (.take w)
        (setWorker { s with tasks, dequeued := s.dequeued ++ [task] } w (.taken task))
  | start (w) {task} (hworker : s.workers w = .taken task) :
      Step s (.start w)
        (setWorker { s with started := s.started ++ [task] } w (.running task .idle))
  | finish (w) {task} (hworker : s.workers w = .running task .idle) :
      Step s (.finish w) (setWorker { s with finished := s.finished ++ [task] } w .locking)
  | begin (hstage : s.destructor = .notBegun) : Step s .begin { s with destructor := .begun }
  | store (hstage : s.destructor = .begun) :
      Step s .store { s with stop := true, destructor := .stored }
  | notifyAll (hstage : s.destructor = .stored) :
      Step s .notifyAll { notifyAll s with destructor := .notified }
  | join (hstage : s.destructor = .notified) (hexited : ∀ w, s.workers w = .exited) :
      Step s .join { s with destructor := .joined }

theorem Step.of_take {w : Fin n} (hworker : s.workers w = .passing) (h : ThreadPool.take s w = some s') :
    Step s (.take w) s' := by
  simp only [ThreadPool.take] at h
  split at h
  next hexit => exact Option.some.inj h ▸ .exit w hworker hexit.1 hexit.2
  next =>
    split at h
    next => cases h
    next task tasks htasks => exact Option.some.inj h ▸ .take w hworker htasks

theorem Step.of_notifyOne {caller : Caller P n} {woken : Option (Fin n)} {task : Task}
    (hcall : s.call caller = some (.enqueued task))
    (h : (notifyOne s woken).map (fun s =>
      { setCall s caller .idle with accepted := s.accepted ++ [task] }) = some s') :
    Step s (.notifyOne caller woken) s' := by
  obtain ⟨s₁, hnotify, rfl⟩ := Option.map_eq_some_iff.mp h
  cases woken with
  | none =>
      obtain ⟨hnone, rfl⟩ := Run.of_guard hnotify
      exact .wakeNone caller hcall hnone
  | some woken =>
      obtain ⟨hwoken, rfl⟩ := Run.of_guard hnotify
      exact .wake caller hcall hwoken

theorem Step.of_next {event : Event P n} (h : next s event = some s') : Step s event s' := by
  cases event with
  | call caller =>
      obtain ⟨hcall, rfl⟩ := Run.of_guard h
      exact .call caller hcall
  | checkStop caller =>
      obtain ⟨hcall, rfl⟩ := Run.of_guard h
      by_cases hstop : s.stop = true
      · rw [if_pos hstop]
        exact .refuse caller hcall hstop
      · rw [if_neg hstop]
        exact .pass caller hcall (by simpa using hstop)
  | enqueue caller =>
      obtain ⟨⟨hcall, hfree⟩, rfl⟩ := Run.of_guard h
      exact .enqueue caller hcall hfree
  | notifyOne caller woken =>
      simp only [next] at h
      split at h
      next task hcall => exact .of_notifyOne hcall h
      next => cases h
  | lock w =>
      obtain ⟨⟨hworker, hfree⟩, rfl⟩ := Run.of_guard h
      exact .lock w hworker hfree
  | check w =>
      obtain ⟨hworker, rfl⟩ := Run.of_guard h
      by_cases htrue : s.stop = true ∨ s.tasks ≠ []
      · rw [if_pos htrue]
        exact .accept w hworker htrue
      · rw [if_neg htrue]
        push Not at htrue
        exact .reject w hworker (by simpa using htrue.1) htrue.2
  | sleep w =>
      obtain ⟨hworker, rfl⟩ := Run.of_guard h
      exact .sleep w hworker
  | wakeSpuriously w =>
      obtain ⟨hworker, rfl⟩ := Run.of_guard h
      exact .wakeSpuriously w hworker
  | take w =>
      obtain ⟨hworker, h⟩ := Option.ite_none_right_eq_some.mp h
      exact .of_take hworker h
  | start w =>
      simp only [next] at h
      split at h
      next task hworker => exact Option.some.inj h ▸ .start w hworker
      next => cases h
  | finish w =>
      simp only [next] at h
      split at h
      next task hworker => exact Option.some.inj h ▸ .finish w hworker
      next => cases h
  | begin =>
      obtain ⟨hstage, rfl⟩ := Run.of_guard h
      exact .begin hstage
  | store =>
      obtain ⟨hstage, rfl⟩ := Run.of_guard h
      exact .store hstage
  | notifyAll =>
      obtain ⟨hstage, rfl⟩ := Run.of_guard h
      exact .notifyAll hstage
  | join =>
      obtain ⟨⟨hstage, hexited⟩, rfl⟩ := Run.of_guard h
      exact .join hstage hexited

end Steps

/-! ## The queue of the pool -/

def Worker.job : Worker → WorkQueue.Job
  | .taken task => .taken task
  | .running task _ => .running task
  | _ => .idle

/-- The pool as a queue of work. -/
def work (s : State P n) : WorkQueue.State (Fin n) where
  tasks := s.tasks
  job := fun w => (s.workers w).job
  enqueued := s.enqueued
  dequeued := s.dequeued
  started := s.started
  finished := s.finished

theorem work_setWorker (s : State P n) (w : Fin n) (worker : Worker) :
    work (setWorker s w worker) =
      { work s with job := Function.update (work s).job w worker.job } := by
  have hjob : (fun w' => (Function.update s.workers w worker w').job) =
      Function.update (fun w' => (s.workers w').job) w worker.job := by
    funext w'
    simp only [Function.update_apply]
    split <;> rfl
  simp only [work, setWorker, hjob]

/-- A step of a worker between two tasks. -/
theorem work_setWorker_of_job (s : State P n) {w : Fin n} {worker : Worker}
    (h : worker.job = (s.workers w).job) : work (setWorker s w worker) = work s := by
  rw [work_setWorker, h]
  have hsame : Function.update (work s).job w (s.workers w).job = (work s).job :=
    Function.update_eq_self w _
  rw [hsame]

theorem work_notifyAll (s : State P n) : work (notifyAll s) = work s := by
  have hjob : (fun w => ((notifyAll s).workers w).job) = fun w => (s.workers w).job := by
    funext w
    by_cases hworker : s.workers w = .sleeping
    · simp [notifyAll, hworker, Worker.job]
    · simp [notifyAll, hworker]
  simp only [work, hjob]
  rfl

section Queue

variable [DecidableEq P]

theorem work_setCall (s : State P n) (caller : Caller P n) (call : Call) :
    work (setCall s caller call) = work s := by
  cases caller with
  | producer p => rfl
  | worker w =>
      simp only [setCall]
      split
      next task _ hworker => exact work_setWorker_of_job s (by rw [hworker]; rfl)
      next => rfl

/-- Every step of the pool is one of its queue. -/
theorem Step.work {event : Event P n} (h : Step s event s') :
    WorkQueue.Step (work s) (work s') := by
  cases h with
  | call caller hcall => exact .of_eq (work_setCall s caller _)
  | refuse caller hcall hstop => exact .of_eq (work_setCall s caller .idle)
  | pass caller hcall hstop => exact .of_eq (work_setCall s caller _)
  | enqueue caller hcall hfree =>
      rw [ThreadPool.enqueue, work_setCall]
      exact .enqueue
  | @wake caller woken task hcall hwoken =>
      have hwake : ThreadPool.work (setWorker s woken .locking) = ThreadPool.work s :=
        work_setWorker_of_job s (by rw [hwoken]; rfl)
      exact .of_eq ((work_setCall (setWorker s woken .locking) caller .idle).trans hwake)
  | wakeNone caller hcall hnone => exact .of_eq (work_setCall s caller .idle)
  | lock w hworker | accept w hworker | reject w hworker | sleep w hworker
  | wakeSpuriously w hworker | exit w hworker =>
      exact .of_eq (work_setWorker_of_job s (by rw [hworker]; rfl))
  | take w hworker htasks =>
      rw [work_setWorker]
      exact .take w (by simp [ThreadPool.work, hworker, Worker.job]) htasks
  | start w hworker =>
      rw [work_setWorker]
      exact .start w (by simp [ThreadPool.work, hworker, Worker.job])
  | finish w hworker =>
      rw [work_setWorker]
      exact .finish w (by simp [ThreadPool.work, hworker, Worker.job])
  | begin hstage => exact .skip
  | store hstage => exact .skip
  | notifyAll hstage => exact .of_eq (work_notifyAll s)
  | join hstage hexited => exact .skip

end Queue

/-! ## Calls of `addTask` -/

/-- A call that has enqueued its task returns it. -/
structure Answered (s : State P n) : Prop where
  calls : ∀ caller task, s.call caller = some (.enqueued task) → task ∈ s.enqueued
  accepted : ∀ task ∈ s.accepted, task ∈ s.enqueued
  answered : ∀ task ∈ s.enqueued,
    task ∈ s.accepted ∨ ∃ caller, s.call caller = some (.enqueued task)

/-- Only the calls that have enqueued their task matter. -/
theorem Answered.congr (h : Answered s)
    (hcall : ∀ caller task, s'.call caller = some (.enqueued task) ↔
      s.call caller = some (.enqueued task))
    (henqueued : s'.enqueued = s.enqueued) (haccepted : s'.accepted = s.accepted) :
    Answered s' where
  calls caller task hcaller := henqueued ▸ h.calls caller task ((hcall caller task).mp hcaller)
  accepted task htask := henqueued ▸ h.accepted task (haccepted ▸ htask)
  answered task htask := by
    rw [haccepted]
    refine (h.answered task (henqueued ▸ htask)).imp_right ?_
    rintro ⟨caller, hcaller⟩
    exact ⟨caller, (hcall caller task).mpr hcaller⟩

theorem Answered.setWorker (h : Answered s) {w : Fin n} {worker : Worker}
    (hold : ∀ task, (s.workers w).call ≠ some (.enqueued task))
    (hnew : ∀ task, worker.call ≠ some (.enqueued task)) : Answered (setWorker s w worker) := by
  refine h.congr (fun caller task => ?_) rfl rfl
  cases caller with
  | producer p => rfl
  | worker w' =>
      by_cases heq : w' = w
      · subst heq
        simpa [State.call, ThreadPool.setWorker] using iff_of_false (hnew task) (hold task)
      · simp [State.call, ThreadPool.setWorker, heq]

theorem Answered.notifyAll (h : Answered s) : Answered (notifyAll s) := by
  refine h.congr (fun caller task => ?_) rfl rfl
  cases caller with
  | producer p => rfl
  | worker w =>
      by_cases hworker : s.workers w = .sleeping
      · simp [State.call, ThreadPool.notifyAll, hworker, Worker.call]
      · simp [State.call, ThreadPool.notifyAll, hworker]

/-- A notification does not touch the call that makes it. -/
theorem call_wake {caller : Caller P n} {call : Call} {woken : Fin n}
    (hcall : s.call caller = some call) (hwoken : s.workers woken = .sleeping) :
    (setWorker s woken .locking).call caller = some call := by
  rw [← hcall]
  cases caller with
  | producer p => rfl
  | worker w =>
      have hne : w ≠ woken := by
        rintro rfl
        simp [State.call, hwoken, Worker.call] at hcall
      simp [State.call, setWorker, hne]

section Calls

variable [DecidableEq P] {caller : Caller P n} {call : Call}

/-- A call changes nothing but where its caller is. -/
theorem setCall_eq (s : State P n) (caller : Caller P n) (call : Call) :
    setCall s caller call = { s with
      workers := (setCall s caller call).workers
      producers := (setCall s caller call).producers } := by
  cases caller with
  | producer p => rfl
  | worker w =>
      simp only [setCall]
      split <;> rfl

theorem call_setCall (h : (s.call caller).isSome) (caller' : Caller P n) :
    (setCall s caller call).call caller' =
      if caller' = caller then some call else s.call caller' := by
  cases caller with
  | producer p =>
      cases caller' with
      | producer p' =>
          simp only [State.call, setCall, Function.update_apply, Caller.producer.injEq]
          split <;> rfl
      | worker w' => simp [State.call, setCall]
  | worker w =>
      cases hworker : s.workers w with
      | running task old =>
          cases caller' with
          | producer p' => simp [State.call, setCall, hworker, setWorker]
          | worker w' =>
              simp only [State.call, setCall, hworker, setWorker, Function.update_apply,
                Caller.worker.injEq]
              split <;> rfl
      | _ => simp [State.call, hworker, Worker.call] at h

theorem enqueued_setCall : (setCall s caller call).enqueued = s.enqueued := by
  rw [setCall_eq]

theorem accepted_setCall : (setCall s caller call).accepted = s.accepted := by
  rw [setCall_eq]

theorem destructor_setCall : (setCall s caller call).destructor = s.destructor := by
  rw [setCall_eq]

/-- Where the other calls are after a step of one of them. -/
theorem call_setCall_iff (h : (s.call caller).isSome) {caller' : Caller P n} {call' : Call} :
    (setCall s caller call).call caller' = some call' ↔
      (caller' = caller ∧ call = call') ∨ (caller' ≠ caller ∧ s.call caller' = some call') := by
  rw [call_setCall h]
  by_cases heq : caller' = caller
  · simp [heq]
  · simp [heq]

theorem Answered.setCall (h : Answered s) {old : Call} (hcall : s.call caller = some old)
    (hold : ∀ task, old ≠ .enqueued task) (hnew : ∀ task, call ≠ .enqueued task) :
    Answered (setCall s caller call) := by
  refine h.congr (fun caller' task => ?_) enqueued_setCall accepted_setCall
  rw [call_setCall_iff (by simp [hcall])]
  constructor
  · rintro (⟨-, hsame⟩ | ⟨-, hcaller⟩)
    · exact absurd hsame (hnew task)
    · exact hcaller
  · intro hcaller
    refine Or.inr ⟨?_, hcaller⟩
    rintro rfl
    exact hold task (Option.some.inj (hcall.symm.trans hcaller))

theorem Answered.enqueue (h : Answered s) (hcall : s.call caller = some .checked) :
    Answered (enqueue s caller) := by
  have hcalls : ∀ {caller' task}, (ThreadPool.enqueue s caller).call caller' =
      some (.enqueued task) ↔ (caller' = caller ∧ Call.enqueued s.enqueued.length = .enqueued task) ∨
        (caller' ≠ caller ∧ s.call caller' = some (.enqueued task)) := by
    intro caller' task
    have hsome : (s.call caller).isSome := by simp [hcall]
    exact call_setCall_iff (s := { s with
      tasks := s.tasks ++ [s.enqueued.length]
      enqueued := s.enqueued ++ [s.enqueued.length] }) hsome
  have henqueued : (ThreadPool.enqueue s caller).enqueued = s.enqueued ++ [s.enqueued.length] :=
    enqueued_setCall
  have haccepted : (ThreadPool.enqueue s caller).accepted = s.accepted := accepted_setCall
  constructor
  · intro caller' task hcaller
    rw [henqueued]
    rcases hcalls.mp hcaller with ⟨-, hnew⟩ | ⟨-, hold⟩
    · rw [Call.enqueued.inj hnew]
      exact List.mem_append_right _ (List.mem_singleton_self task)
    · exact List.mem_append_left _ (h.calls caller' task hold)
  · intro task htask
    rw [henqueued]
    exact List.mem_append_left _ (h.accepted task (haccepted ▸ htask))
  · intro task htask
    rw [henqueued] at htask
    rw [haccepted]
    rcases List.mem_append.mp htask with hold | hlast
    · refine (h.answered task hold).imp_right ?_
      rintro ⟨caller', hcaller⟩
      refine ⟨caller', hcalls.mpr (Or.inr ⟨?_, hcaller⟩)⟩
      rintro rfl
      rw [hcall] at hcaller
      cases hcaller
    · rw [List.mem_singleton.mp hlast]
      exact Or.inr ⟨caller, hcalls.mpr (Or.inl ⟨rfl, rfl⟩)⟩

/-- The call that returns its task is the one that has enqueued it. -/
theorem Answered.accept (h : Answered s) {task : Task}
    (hcall : s.call caller = some (.enqueued task)) :
    Answered { ThreadPool.setCall s caller .idle with accepted := s.accepted ++ [task] } := by
  have hsome : (s.call caller).isSome := by simp [hcall]
  have henqueued : (ThreadPool.setCall s caller .idle).enqueued = s.enqueued := enqueued_setCall
  constructor
  · intro caller' task' hcaller
    rcases (call_setCall_iff hsome).mp hcaller with ⟨-, hidle⟩ | ⟨-, hold⟩
    · cases hidle
    · exact henqueued ▸ h.calls caller' task' hold
  · intro task' htask
    rcases List.mem_append.mp htask with hbefore | hlast
    · exact henqueued ▸ h.accepted task' hbefore
    · rw [List.mem_singleton.mp hlast]
      exact henqueued ▸ h.calls caller task hcall
  · intro task' htask
    rcases h.answered task' (henqueued ▸ htask) with haccepted | ⟨caller', hcaller⟩
    · exact Or.inl (List.mem_append_left _ haccepted)
    · by_cases heq : caller' = caller
      · rw [heq, hcall] at hcaller
        cases hcaller
        exact Or.inl (List.mem_append_right _ (List.mem_singleton_self task))
      · exact Or.inr ⟨caller', (call_setCall_iff hsome).mpr (Or.inr ⟨heq, hcaller⟩)⟩

theorem Answered.step {event : Event P n} (h : Answered s) (hstep : Step s event s') :
    Answered s' := by
  cases hstep with
  | call caller hcall => exact h.setCall hcall nofun nofun
  | refuse caller hcall hstop =>
      have hrefused : Answered (ThreadPool.setCall s caller .idle) := h.setCall hcall nofun nofun
      exact ⟨hrefused.calls, hrefused.accepted, hrefused.answered⟩
  | pass caller hcall hstop => exact h.setCall hcall nofun nofun
  | enqueue caller hcall hfree => exact h.enqueue hcall
  | @wake caller woken task hcall hwoken =>
      have hwake : Answered (ThreadPool.setWorker s woken .locking) :=
        h.setWorker (by simp [hwoken, Worker.call]) nofun
      exact hwake.accept (call_wake hcall hwoken)
  | wakeNone caller hcall hnone => exact h.accept hcall
  | lock w hworker | accept w hworker | reject w hworker | sleep w hworker
  | wakeSpuriously w hworker | exit w hworker =>
      exact h.setWorker (by simp [hworker, Worker.call]) nofun
  | @take w task tasks hworker htasks =>
      have htaken : Answered (ThreadPool.setWorker s w (.taken task)) :=
        h.setWorker (by simp [hworker, Worker.call]) nofun
      exact ⟨htaken.calls, htaken.accepted, htaken.answered⟩
  | @start w task hworker =>
      have hstarted : Answered (ThreadPool.setWorker s w (.running task .idle)) :=
        h.setWorker (by simp [hworker, Worker.call]) nofun
      exact ⟨hstarted.calls, hstarted.accepted, hstarted.answered⟩
  | finish w hworker =>
      have hfinished : Answered (ThreadPool.setWorker s w .locking) :=
        h.setWorker (by simp [hworker, Worker.call]) nofun
      exact ⟨hfinished.calls, hfinished.accepted, hfinished.answered⟩
  | begin hstage => exact ⟨h.calls, h.accepted, h.answered⟩
  | store hstage => exact ⟨h.calls, h.accepted, h.answered⟩
  | notifyAll hstage => exact ⟨h.notifyAll.calls, h.accepted, h.notifyAll.answered⟩
  | join hstage hexited => exact ⟨h.calls, h.accepted, h.answered⟩

end Calls

/-! ## The waits of the workers -/

def Worker.phase : Worker → Phase
  | .rejected => .rejected
  | .sleeping => .sleeping
  | _ => .away

/-- What the workers and `~ThreadPool` do to the wait. -/
def waits (s : State P n) : Waiting.State (Fin n) :=
  ⟨fun w => (s.workers w).phase, s.stop, s.destructor⟩

theorem waits_setWorker (s : State P n) {w : Fin n} {worker : Worker}
    (h : Moves s.stop (s.workers w).phase worker.phase) :
    Waiting.Step (waits s) (waits (setWorker s w worker)) := by
  have hwaits : waits (setWorker s w worker) =
      { waits s with phase := Function.update (waits s).phase w worker.phase } := by
    simp only [waits, setWorker, Waiting.State.mk.injEq, and_true]
    funext w'
    simp only [Function.update_apply]
    split <;> rfl
  rw [hwaits]
  exact .move w h

theorem waits_notifyAll (s : State P n) :
    waits { notifyAll s with destructor := .notified } =
      { waits s with phase := wakeAll (waits s).phase, stage := .notified } := by
  simp only [waits, Waiting.State.mk.injEq, and_true]
  refine ⟨?_, rfl⟩
  funext w
  cases hworker : s.workers w <;> simp [notifyAll, wakeAll, hworker, Worker.phase]

section Waits

variable [DecidableEq P]

theorem waits_setCall (s : State P n) (caller : Caller P n) (call : Call) :
    waits (setCall s caller call) = waits s := by
  cases caller with
  | producer p => rfl
  | worker w =>
      simp only [setCall]
      split
      next task _ hworker =>
        simp only [waits, setWorker, Waiting.State.mk.injEq, and_true]
        funext w'
        by_cases heq : w' = w
        · simp [heq, hworker, Worker.phase]
        · simp [heq]
      next => rfl

/-- Every step of the pool is one of its waits. -/
theorem Step.waits {event : Event P n} (h : Step s event s') :
    Waiting.Step (waits s) (waits s') := by
  cases h with
  | call caller => exact .of_eq (waits_setCall s caller _)
  | refuse caller => exact .of_eq (waits_setCall s caller .idle)
  | pass caller => exact .of_eq (waits_setCall s caller _)
  | enqueue caller => exact .of_eq (waits_setCall _ caller _)
  | @wake caller woken task hcall hwoken =>
      have hcalls := waits_setCall (setWorker s woken .locking) caller .idle
      have hwake : Waiting.Step (ThreadPool.waits s)
          (ThreadPool.waits (setWorker s woken .locking)) :=
        waits_setWorker s (hwoken ▸ .wake)
      exact hcalls ▸ hwake
  | wakeNone caller => exact .of_eq (waits_setCall s caller .idle)
  | lock w hworker => exact waits_setWorker s (hworker ▸ .stay _)
  | accept w hworker => exact waits_setWorker s (hworker ▸ .stay _)
  | reject w hworker hstop => exact waits_setWorker s (hworker ▸ .reject hstop)
  | sleep w hworker => exact waits_setWorker s (hworker ▸ .sleep)
  | wakeSpuriously w hworker => exact waits_setWorker s (hworker ▸ .wake)
  | exit w hworker => exact waits_setWorker s (hworker ▸ .stay _)
  | @take w task tasks hworker =>
      exact waits_setWorker { s with tasks, dequeued := s.dequeued ++ [task] } (hworker ▸ .stay _)
  | @start w task hworker =>
      exact waits_setWorker { s with started := s.started ++ [task] } (hworker ▸ .stay _)
  | @finish w task hworker =>
      exact waits_setWorker { s with finished := s.finished ++ [task] } (hworker ▸ .stay _)
  | begin hstage => exact .begin hstage
  | store hstage => exact .store hstage
  | notifyAll hstage => exact waits_notifyAll s ▸ .notifyAll hstage
  | join hstage => exact .join hstage

end Waits

end FalconLink.ThreadPool
