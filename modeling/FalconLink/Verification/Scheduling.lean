import FalconLink.Foundation.Counting
import FalconLink.Verification.Tasks
import Mathlib.Data.Finset.Card

/-! # No worker sleeps through a task

`notify_one` wakes one worker for each task. A worker that finds the queue empty goes to sleep again,
and a worker that comes back from a task looks at the queue before it sleeps.
-/

namespace FalconLink.ThreadPool

open Counting

variable {P : Type} {n : ℕ} {s s' : State P n}

/-! ## Workers that are on their way -/

/-- The worker will look at the queue, or has seen a task there. -/
def Worker.isAwake : Worker → Bool
  | .locking | .checking | .passing => true
  | .rejected | .sleeping | .taken _ | .running _ _ | .exited => false

def awake (s : State P n) : ℕ :=
  total (fun worker => worker.isAwake.toNat) s.workers

/-- The tasks in the queue, or already out of it, whose calls are yet to notify a worker. -/
def announcing (s : State P n) : Finset Task :=
  s.enqueued.toFinset \ s.accepted.toFinset

theorem announcing_accept (s : State P n) (task : Task) :
    s.enqueued.toFinset \ (s.accepted ++ [task]).toFinset = (announcing s).erase task := by
  ext other
  simp [announcing]
  tauto

/-- While a worker sleeps, somebody is on the way for every task in the queue. -/
structure Conserving (s : State P n) : Prop where
  rejected : ∀ w, s.workers w = .rejected → s.tasks = []
  enough : (∃ w, s.workers w = .sleeping) → s.tasks.length ≤ (announcing s).card + awake s

theorem conserving_of_tasks (h : s.tasks = []) : Conserving s where
  rejected _ _ := h
  enough _ := by simp [h]

theorem awake_setWorker (s : State P n) (w : Fin n) (worker : Worker) :
    awake (setWorker s w worker) + (s.workers w).isAwake.toNat = awake s + worker.isAwake.toNat :=
  total_update (fun worker => worker.isAwake.toNat) s.workers w worker

/-- A worker that neither sleeps nor turns away from the queue. -/
theorem Conserving.setWorker (h : Conserving s) {w : Fin n} {worker : Worker}
    (hawake : (s.workers w).isAwake = true → worker.isAwake = true)
    (hrejected : worker ≠ .rejected) (hsleeping : worker ≠ .sleeping) :
    Conserving (setWorker s w worker) := by
  constructor
  · intro w' hw'
    by_cases heq : w' = w
    · subst heq
      exact absurd (by simpa [ThreadPool.setWorker] using hw') hrejected
    · exact h.rejected w' (by simpa [ThreadPool.setWorker, heq] using hw')
  · rintro ⟨w', hw'⟩
    have hold : s.workers w' = .sleeping := by
      by_cases heq : w' = w
      · subst heq
        exact absurd (by simpa [ThreadPool.setWorker] using hw') hsleeping
      · simpa [ThreadPool.setWorker, heq] using hw'
    have henough := h.enough ⟨w', hold⟩
    have hcount := awake_setWorker s w worker
    have hle : (s.workers w).isAwake.toNat ≤ worker.isAwake.toNat := Bool.toNat_le_toNat hawake
    change s.tasks.length ≤ (announcing s).card + awake (ThreadPool.setWorker s w worker)
    omega

theorem Conserving.notifyAll (h : Conserving s) : Conserving (notifyAll s) := by
  constructor
  · intro w hw
    apply h.rejected w
    simp only [ThreadPool.notifyAll] at hw
    grind
  · rintro ⟨w, hw⟩
    simp only [ThreadPool.notifyAll] at hw
    grind

section Steps

variable [DecidableEq P]

theorem tasks_setCall {caller : Caller P n} {call : Call} :
    (setCall s caller call).tasks = s.tasks := by
  rw [setCall_eq]

theorem workers_setCall {caller : Caller P n} {call : Call} {w : Fin n} {worker : Worker}
    (hcall : worker.call = none) :
    (setCall s caller call).workers w = worker ↔ s.workers w = worker := by
  cases caller with
  | producer p => rfl
  | worker w' =>
      simp only [setCall]
      split
      next task old hworker =>
        by_cases heq : w = w'
        · subst heq
          simp only [ThreadPool.setWorker, Function.update_self, hworker]
          refine iff_of_false ?_ ?_
          · rintro rfl
            cases hcall
          · rintro rfl
            cases hcall
        · simp [ThreadPool.setWorker, heq]
      next => rfl

theorem awake_setCall {caller : Caller P n} {call : Call} :
    awake (setCall s caller call) = awake s := by
  cases caller with
  | producer p => rfl
  | worker w =>
      simp only [setCall]
      split
      next task old hworker =>
        have hcount := awake_setWorker s w (.running task call)
        rw [hworker] at hcount
        exact hcount
      next => rfl

/-- A call changes its caller only, which does not become anything but a running worker. -/
theorem Conserving.setCall (h : Conserving s) (caller : Caller P n) (call : Call) :
    Conserving (setCall s caller call) := by
  cases caller with
  | producer p => exact ⟨h.rejected, h.enough⟩
  | worker w =>
      simp only [ThreadPool.setCall]
      split
      next task old hworker =>
        apply h.setWorker
        · simp [hworker, Worker.isAwake]
        · simp
        · simp
      next => exact h

omit [DecidableEq P] in
/-- The number of the next task is new. -/
theorem notMem_enqueued (h : WorkQueue.Inv (work s)) : s.enqueued.length ∉ s.enqueued := by
  have hnumbers : s.enqueued = List.range s.enqueued.length := h.numbers
  rw [hnumbers]
  simp

/-- The call that enqueues a task is going to notify. -/
theorem Conserving.enqueue (h : Conserving s) (hwork : WorkQueue.Inv (work s))
    (hanswered : Answered s) (hfree : isFree s) (caller : Caller P n) :
    Conserving (enqueue s caller) := by
  apply Conserving.setCall
  have hnew := notMem_enqueued hwork
  have hannouncing : (s.enqueued ++ [s.enqueued.length]).toFinset \ s.accepted.toFinset =
      insert s.enqueued.length (announcing s) := by
    have haccepted := mt (hanswered.accepted s.enqueued.length) hnew
    rw [List.toFinset_append, Finset.union_sdiff_distrib, announcing, Finset.insert_eq,
      Finset.union_comm]
    congr 1
    simpa using haccepted
  constructor
  · intro w hw
    have hlock := hfree w
    rw [show s.workers w = .rejected from hw] at hlock
    cases hlock
  · intro hsleeping
    have henough := h.enough hsleeping
    have hnotMem : s.enqueued.length ∉ announcing s := by simp [announcing, hnew]
    change (s.tasks ++ [s.enqueued.length]).length ≤
      ((s.enqueued ++ [s.enqueued.length]).toFinset \ s.accepted.toFinset).card + awake s
    rw [hannouncing, Finset.card_insert_of_notMem hnotMem, List.length_append,
      List.length_singleton]
    omega

omit [DecidableEq P] in
/-- The worker that takes a task was one of those on their way. -/
theorem Conserving.take (h : Conserving s) (hlocked : Locked s) {w : Fin n} {task : Task}
    {tasks : List Task} (hworker : s.workers w = .passing) (htasks : s.tasks = task :: tasks) :
    Conserving
      (ThreadPool.setWorker { s with tasks, dequeued := s.dequeued ++ [task] } w (.taken task)) := by
  constructor
  · intro w' hw'
    by_cases heq : w' = w
    · simp [ThreadPool.setWorker, heq] at hw'
    · have hold : s.workers w' = .rejected := by simpa [ThreadPool.setWorker, heq] using hw'
      have hsame := hlocked.exclusive w' w (by rw [hold]; rfl) (by rw [hworker]; rfl)
      exact absurd hsame heq
  · rintro ⟨w', hw'⟩
    have hne : w' ≠ w := by
      rintro rfl
      simp [ThreadPool.setWorker] at hw'
    have henough := h.enough ⟨w', by simpa [ThreadPool.setWorker, hne] using hw'⟩
    have hcount := awake_setWorker s w (.taken task)
    have hold : (s.workers w).isAwake.toNat = 1 := by rw [hworker]; rfl
    have hnew : (Worker.taken task).isAwake.toNat = 0 := rfl
    rw [htasks, List.length_cons] at henough
    change tasks.length ≤
      (announcing s).card + awake (ThreadPool.setWorker s w (.taken task))
    omega

/-- A notified worker makes up for the notification. -/
theorem Conserving.wake (h : Conserving s) {w : Fin n} (hworker : s.workers w = .sleeping)
    (caller : Caller P n) (task : Task) :
    Conserving { ThreadPool.setCall (ThreadPool.setWorker s w .locking) caller .idle with
      accepted := s.accepted ++ [task] } := by
  have hwoken : Conserving (ThreadPool.setWorker s w .locking) :=
    h.setWorker (fun _ => rfl) nofun nofun
  refine ⟨(hwoken.setCall caller .idle).rejected, fun _ => ?_⟩
  have henough := h.enough ⟨w, hworker⟩
  have hcount := awake_setWorker s w .locking
  have hold : (s.workers w).isAwake.toNat = 0 := by rw [hworker]; rfl
  have hnew : Worker.locking.isAwake.toNat = 1 := rfl
  have hless := Finset.pred_card_le_card_erase (s := announcing s) (a := task)
  change (ThreadPool.setCall (ThreadPool.setWorker s w .locking) caller .idle).tasks.length ≤
    ((ThreadPool.setCall (ThreadPool.setWorker s w .locking) caller .idle).enqueued.toFinset \
      (s.accepted ++ [task]).toFinset).card +
    awake (ThreadPool.setCall (ThreadPool.setWorker s w .locking) caller .idle)
  rw [tasks_setCall, enqueued_setCall, awake_setCall]
  change s.tasks.length ≤ (s.enqueued.toFinset \ (s.accepted ++ [task]).toFinset).card +
    awake (ThreadPool.setWorker s w .locking)
  rw [announcing_accept]
  omega

theorem Conserving.step {event : Event P n} (h : Conserving s) (hlocked : Locked s)
    (hwork : WorkQueue.Inv (work s)) (hanswered : Answered s) (hstep : Step s event s') :
    Conserving s' := by
  cases hstep with
  | call caller hcall => exact h.setCall caller _
  | refuse caller hcall hstop =>
      have hrefused := h.setCall caller .idle
      exact ⟨hrefused.rejected, hrefused.enough⟩
  | pass caller hcall hstop => exact h.setCall caller _
  | enqueue caller hcall hfree => exact h.enqueue hwork hanswered hfree caller
  | @wake caller woken task hcall hwoken => exact h.wake hwoken caller task
  | wakeNone caller hcall hnone =>
      refine ⟨(h.setCall caller .idle).rejected, ?_⟩
      rintro ⟨w, hw⟩
      exact absurd ((workers_setCall rfl).mp hw) (hnone w)
  | lock w hworker hfree => exact h.setWorker (fun _ => rfl) nofun nofun
  | accept w hworker htrue => exact h.setWorker (fun _ => rfl) nofun nofun
  | wakeSpuriously w hworker => exact h.setWorker (fun _ => rfl) nofun nofun
  | reject w hworker hstop htasks => exact conserving_of_tasks htasks
  | sleep w hworker => exact conserving_of_tasks (h.rejected w hworker)
  | exit w hworker hstop htasks => exact conserving_of_tasks htasks
  | take w hworker htasks => exact h.take hlocked hworker htasks
  | @start w task hworker =>
      have hstarted : Conserving (ThreadPool.setWorker s w (.running task .idle)) := by
        apply h.setWorker
        · simp [hworker, Worker.isAwake]
        · simp
        · simp
      exact ⟨hstarted.rejected, hstarted.enough⟩
  | finish w hworker =>
      have hfinished : Conserving (ThreadPool.setWorker s w .locking) :=
        h.setWorker (fun _ => rfl) nofun nofun
      exact ⟨hfinished.rejected, hfinished.enough⟩
  | begin hstage => exact ⟨h.rejected, h.enough⟩
  | store hstage => exact ⟨h.rejected, h.enough⟩
  | notifyAll hstage => exact ⟨h.notifyAll.rejected, h.notifyAll.enough⟩
  | join hstage hexited => exact ⟨h.rejected, h.enough⟩

end Steps

/-! ## Every notification comes once -/

/-- A call that is yet to notify is the only one for its task. -/
structure Unannounced (s : State P n) : Prop where
  distinct : ∀ caller caller' task, s.call caller = some (.enqueued task) →
    s.call caller' = some (.enqueued task) → caller = caller'
  notMem : ∀ caller task, s.call caller = some (.enqueued task) → task ∉ s.accepted

theorem Unannounced.congr (h : Unannounced s)
    (hcall : ∀ caller task, s'.call caller = some (.enqueued task) →
      s.call caller = some (.enqueued task))
    (haccepted : s'.accepted = s.accepted) : Unannounced s' where
  distinct caller caller' task h₁ h₂ :=
    h.distinct caller caller' task (hcall caller task h₁) (hcall caller' task h₂)
  notMem caller task hcaller := haccepted ▸ h.notMem caller task (hcall caller task hcaller)

theorem Unannounced.setWorker (h : Unannounced s) {w : Fin n} {worker : Worker}
    (hnew : ∀ task, worker.call ≠ some (.enqueued task)) : Unannounced (setWorker s w worker) := by
  refine h.congr (fun caller task hcaller => ?_) rfl
  cases caller with
  | producer p => exact hcaller
  | worker w' =>
      by_cases heq : w' = w
      · subst heq
        exact absurd (by simpa [State.call, ThreadPool.setWorker] using hcaller) (hnew task)
      · simpa [State.call, ThreadPool.setWorker, heq] using hcaller

theorem Unannounced.notifyAll (h : Unannounced s) : Unannounced (notifyAll s) := by
  refine h.congr (fun caller task hcaller => ?_) rfl
  cases caller with
  | producer p => exact hcaller
  | worker w =>
      by_cases hworker : s.workers w = .sleeping
      · simp [State.call, ThreadPool.notifyAll, hworker, Worker.call] at hcaller
      · simpa [State.call, ThreadPool.notifyAll, hworker] using hcaller

section Calls

variable [DecidableEq P] {caller : Caller P n}

theorem Unannounced.setCall (h : Unannounced s) {old call : Call}
    (hcall : s.call caller = some old) (hnew : ∀ task, call ≠ .enqueued task) :
    Unannounced (setCall s caller call) := by
  refine h.congr (fun caller' task hcaller => ?_) accepted_setCall
  rcases (call_setCall_iff (by simp [hcall])).mp hcaller with ⟨-, hsame⟩ | ⟨-, hold⟩
  · exact absurd hsame (hnew task)
  · exact hold

theorem Unannounced.enqueue (h : Unannounced s) (hwork : WorkQueue.Inv (work s))
    (hanswered : Answered s) (hcall : s.call caller = some .checked) :
    Unannounced (enqueue s caller) := by
  have hnew := notMem_enqueued hwork
  have hcalls : ∀ {caller' task}, (ThreadPool.enqueue s caller).call caller' =
      some (.enqueued task) ↔ (caller' = caller ∧ Call.enqueued s.enqueued.length = .enqueued task) ∨
        (caller' ≠ caller ∧ s.call caller' = some (.enqueued task)) := by
    intro caller' task
    have hsome : (s.call caller).isSome := by simp [hcall]
    exact call_setCall_iff (s := { s with
      tasks := s.tasks ++ [s.enqueued.length]
      enqueued := s.enqueued ++ [s.enqueued.length] }) hsome
  have haccepted : (ThreadPool.enqueue s caller).accepted = s.accepted := accepted_setCall
  constructor
  · intro caller₁ caller₂ task h₁ h₂
    rcases hcalls.mp h₁ with ⟨rfl, hnew₁⟩ | ⟨-, hold₁⟩
    · rcases hcalls.mp h₂ with ⟨rfl, -⟩ | ⟨-, hold₂⟩
      · rfl
      · rw [← Call.enqueued.inj hnew₁] at hold₂
        exact absurd (hanswered.calls caller₂ _ hold₂) hnew
    · rcases hcalls.mp h₂ with ⟨rfl, hnew₂⟩ | ⟨-, hold₂⟩
      · rw [← Call.enqueued.inj hnew₂] at hold₁
        exact absurd (hanswered.calls caller₁ _ hold₁) hnew
      · exact h.distinct caller₁ caller₂ task hold₁ hold₂
  · intro caller' task hcaller
    rw [haccepted]
    rcases hcalls.mp hcaller with ⟨-, hsame⟩ | ⟨-, hold⟩
    · rw [← Call.enqueued.inj hsame]
      exact mt (hanswered.accepted s.enqueued.length) hnew
    · exact h.notMem caller' task hold

theorem Unannounced.accept (h : Unannounced s) {task : Task}
    (hcall : s.call caller = some (.enqueued task)) :
    Unannounced { ThreadPool.setCall s caller .idle with accepted := s.accepted ++ [task] } := by
  have hsome : (s.call caller).isSome := by simp [hcall]
  have hothers : ∀ {caller' task'}, (ThreadPool.setCall s caller .idle).call caller' =
      some (.enqueued task') → caller' ≠ caller ∧ s.call caller' = some (.enqueued task') := by
    intro caller' task' hcaller
    rcases (call_setCall_iff hsome).mp hcaller with ⟨-, hidle⟩ | hold
    · cases hidle
    · exact hold
  constructor
  · exact fun caller₁ caller₂ task' h₁ h₂ =>
      h.distinct caller₁ caller₂ task' (hothers h₁).2 (hothers h₂).2
  · intro caller' task' hcaller hmem
    rcases hothers hcaller with ⟨hne, hold⟩
    rcases List.mem_append.mp hmem with hbefore | hlast
    · exact h.notMem caller' task' hold hbefore
    · rw [List.mem_singleton.mp hlast] at hold
      exact hne (h.distinct caller' caller task hold hcall)

theorem Unannounced.step {event : Event P n} (h : Unannounced s) (hwork : WorkQueue.Inv (work s))
    (hanswered : Answered s) (hstep : Step s event s') : Unannounced s' := by
  cases hstep with
  | call caller hcall => exact h.setCall hcall nofun
  | refuse caller hcall hstop =>
      have hrefused : Unannounced (ThreadPool.setCall s caller .idle) := h.setCall hcall nofun
      exact ⟨hrefused.distinct, hrefused.notMem⟩
  | pass caller hcall hstop => exact h.setCall hcall nofun
  | enqueue caller hcall hfree => exact h.enqueue hwork hanswered hcall
  | @wake caller woken task hcall hwoken =>
      have hwake : Unannounced (ThreadPool.setWorker s woken .locking) := h.setWorker nofun
      exact hwake.accept (call_wake hcall hwoken)
  | wakeNone caller hcall hnone => exact h.accept hcall
  | lock w | accept w | reject w | sleep w | wakeSpuriously w | exit w => exact h.setWorker nofun
  | @take w task tasks hworker htasks =>
      have htaken : Unannounced (ThreadPool.setWorker s w (.taken task)) := h.setWorker nofun
      exact ⟨htaken.distinct, htaken.notMem⟩
  | @start w task hworker =>
      have hstarted : Unannounced (ThreadPool.setWorker s w (.running task .idle)) :=
        h.setWorker (by simp [Worker.call])
      exact ⟨hstarted.distinct, hstarted.notMem⟩
  | finish w hworker =>
      have hfinished : Unannounced (ThreadPool.setWorker s w .locking) := h.setWorker nofun
      exact ⟨hfinished.distinct, hfinished.notMem⟩
  | begin hstage => exact ⟨h.distinct, h.notMem⟩
  | store hstage => exact ⟨h.distinct, h.notMem⟩
  | notifyAll hstage => exact ⟨h.notifyAll.distinct, h.notifyAll.notMem⟩
  | join hstage hexited => exact ⟨h.distinct, h.notMem⟩

end Calls

/-! ## The steps that the pool takes by itself -/

/-- What holds in every reachable state. -/
structure Sound (s : State P n) : Prop where
  work : WorkQueue.Inv (work s)
  locked : Locked s
  answered : Answered s
  conserving : Conserving s
  unannounced : Unannounced s

/-- A step that neither a caller nor a task nor chance decides on. -/
def Event.isInternal : Event P n → Bool
  | .notifyOne _ _ | .lock _ | .check _ | .sleep _ | .take _ | .start _ => true
  | .call _ | .checkStop _ | .enqueue _ | .wakeSpuriously _ | .finish _ | .begin | .store
  | .notifyAll | .join => false

def Worker.isRunning : Worker → Bool
  | .running _ _ => true
  | _ => false

/-- How many internal steps a worker can take until it sleeps, runs a task or exits. -/
def Worker.rank : Worker → ℕ
  | .locking => 4
  | .checking => 3
  | .passing => 2
  | .rejected | .taken _ => 1
  | .sleeping | .running _ _ | .exited => 0

/-- A notification is one step, and it wakes at most one worker. -/
def rank (s : State P n) : ℕ :=
  5 * (announcing s).card + total Worker.rank s.workers

theorem Worker.rank_le (worker : Worker) : worker.rank ≤ 4 := by
  cases worker <;> simp [rank]

theorem rank_le (s : State P n) : rank s ≤ 5 * (announcing s).card + 4 * n := by
  have htotal := total_le Worker.rank_le s.workers
  rw [Fintype.card_fin] at htotal
  unfold rank
  omega

theorem rank_setWorker (s : State P n) (w : Fin n) (worker : Worker) :
    rank (setWorker s w worker) + (s.workers w).rank = rank s + worker.rank := by
  have htotal := total_update Worker.rank s.workers w worker
  unfold rank
  change 5 * (announcing s).card + total Worker.rank (Function.update s.workers w worker) +
    (s.workers w).rank = _
  omega

section Internal

variable [DecidableEq P]

theorem Sound.step {event : Event P n} (h : Sound s) (hstep : Step s event s') : Sound s' where
  work := h.work.step hstep.work
  locked := h.locked.step hstep
  answered := h.answered.step hstep
  conserving := h.conserving.step h.locked h.work h.answered hstep
  unannounced := h.unannounced.step h.work h.answered hstep

omit [DecidableEq P] in
theorem unannounced_initial (P : Type) (n : ℕ) : Unannounced (initial P n) where
  distinct caller _ _ h := by cases caller <;> cases h
  notMem caller _ h := by cases caller <;> cases h

theorem sound_run {size : ℤ} {events : List (Event P (workerCount size))}
    {s : State P (workerCount size)} (hrun : Run.run next (construct P size) events = some s) :
    Sound s := by
  refine Run.invariant' (fun _ _ _ hs h => hs.step (.of_next h)) ?_ hrun
  exact ⟨inv_initial P _, locked_initial P _, answered_initial P _, conserving_of_tasks rfl,
    unannounced_initial P _⟩

theorem total_rank_setCall {caller : Caller P n} {call : Call} :
    total Worker.rank (setCall s caller call).workers = total Worker.rank s.workers := by
  cases caller with
  | producer p => rfl
  | worker w =>
      simp only [setCall]
      split
      next task old hworker =>
        have htotal := total_update Worker.rank s.workers w (.running task call)
        rw [hworker] at htotal
        exact htotal
      next => rfl

/-- With its notification, a call leaves those that are yet to notify. -/
theorem Unannounced.rank_accept (h : Unannounced s) (hanswered : Answered s)
    {caller : Caller P n} {task : Task} (hcall : s.call caller = some (.enqueued task)) :
    rank { ThreadPool.setCall s caller .idle with accepted := s.accepted ++ [task] } + 5 =
      rank s := by
  have hmem : task ∈ announcing s := by
    simp [announcing, hanswered.calls caller task hcall, h.notMem caller task hcall]
  have hcard := Finset.card_erase_add_one hmem
  change 5 * ((ThreadPool.setCall s caller .idle).enqueued.toFinset \
      (s.accepted ++ [task]).toFinset).card +
    total Worker.rank (ThreadPool.setCall s caller .idle).workers + 5 = _
  rw [enqueued_setCall, total_rank_setCall, announcing_accept, rank]
  omega

omit [DecidableEq P] in
theorem rank_setWorker_lt {w : Fin n} {worker : Worker} (h : worker.rank < (s.workers w).rank) :
    rank (setWorker s w worker) < rank s := by
  have hset := rank_setWorker s w worker
  omega

theorem Sound.lower {event : Event P n} (h : Sound s) (hinternal : event.isInternal = true)
    (hstep : Step s event s') : rank s' < rank s := by
  cases hstep with
  | @wake caller woken task hcall hwoken =>
      have hset := rank_setWorker s woken .locking
      have hwake : Unannounced (setWorker s woken .locking) := h.unannounced.setWorker nofun
      have hanswered : Answered (setWorker s woken .locking) :=
        h.answered.setWorker (by simp [hwoken, Worker.call]) nofun
      have haccept := hwake.rank_accept hanswered (call_wake hcall hwoken)
      have hold : (s.workers woken).rank = 0 := by rw [hwoken]; rfl
      have hnew : Worker.locking.rank = 4 := rfl
      change rank { setCall (setWorker s woken .locking) caller .idle with
        accepted := (setWorker s woken .locking).accepted ++ [task] } < rank s
      omega
  | wakeNone caller hcall hnone =>
      have haccept := h.unannounced.rank_accept h.answered hcall
      omega
  | lock w hworker | accept w hworker | reject w hworker | sleep w hworker | exit w hworker =>
      apply rank_setWorker_lt
      rw [hworker]
      decide
  | @take w task tasks hworker =>
      have hlower : (Worker.taken task).rank < (s.workers w).rank := by
        rw [hworker]
        exact Nat.one_lt_two
      exact rank_setWorker_lt hlower
  | @start w task hworker =>
      have hlower : (Worker.running task .idle).rank < (s.workers w).rank := by
        rw [hworker]
        exact Nat.zero_lt_one
      exact rank_setWorker_lt hlower
  | _ => cases hinternal

/-! ## When no internal step is left -/

/-- Every internal step has been taken. -/
def AtRest (s : State P n) : Prop :=
  ∀ event, event.isInternal = true → next s event = none

theorem AtRest.not_step (h : AtRest s) (event : Event P n) (hinternal : event.isInternal = true) :
    ¬(next s event).isSome := by
  simp [h event hinternal]

theorem AtRest.announcing_eq (h : AtRest s) (hanswered : Answered s) : announcing s = ∅ := by
  rw [Finset.eq_empty_iff_forall_notMem]
  intro task htask
  simp only [announcing, Finset.mem_sdiff, List.mem_toFinset] at htask
  rcases hanswered.answered task htask.1 with haccepted | ⟨caller, hcall⟩
  · exact htask.2 haccepted
  · by_cases hsleeping : ∃ w, s.workers w = .sleeping
    · rcases hsleeping with ⟨w, hw⟩
      apply h.not_step (.notifyOne caller (some w)) rfl
      simp [next, hcall, notifyOne, hw]
    · apply h.not_step (.notifyOne caller none) rfl
      push Not at hsleeping
      simp [next, hcall, notifyOne, hsleeping]

theorem AtRest.isFree (h : AtRest s) (hlocked : Locked s) : isFree s := by
  intro w
  cases hworker : s.workers w with
  | checking =>
      have hcheck := h.not_step (.check w) rfl
      simp [next, hworker] at hcheck
  | rejected =>
      have hsleep := h.not_step (.sleep w) rfl
      simp [next, hworker] at hsleep
  | passing => exact absurd (hlocked.take_isSome hworker) (h.not_step _ rfl)
  | _ => rfl

/-- A worker that has no internal step left sleeps, runs a task or has exited. -/
theorem AtRest.workers (h : AtRest s) (hlocked : Locked s) (w : Fin n) :
    s.workers w = .sleeping ∨ (s.workers w).isRunning = true ∨ s.workers w = .exited := by
  have hfree := h.isFree hlocked
  cases hworker : s.workers w with
  | locking =>
      have hlock := h.not_step (.lock w) rfl
      simp [next, hworker, hfree] at hlock
  | checking | rejected | passing =>
      have hholds := hfree w
      rw [hworker] at hholds
      cases hholds
  | taken task =>
      have hstart := h.not_step (.start w) rfl
      simp [next, hworker] at hstart
  | sleeping => exact Or.inl rfl
  | running task call => exact Or.inr (Or.inl rfl)
  | exited => exact Or.inr (Or.inr rfl)

/-- The pool is at rest when no call is about to notify either. -/
theorem atRest_of_workers (hworkers : ∀ w, s.workers w = .sleeping ∨
      (s.workers w).isRunning = true ∨ s.workers w = .exited)
    (hcalls : ∀ caller task, s.call caller ≠ some (.enqueued task)) : AtRest s := by
  intro event hinternal
  by_contra hsome
  obtain ⟨t, hnext⟩ := Option.ne_none_iff_exists'.mp hsome
  cases Step.of_next hnext with
  | wake caller hcall | wakeNone caller hcall => exact hcalls caller _ hcall
  | lock w hworker | accept w hworker | reject w hworker | sleep w hworker | exit w hworker
  | take w hworker | start w hworker =>
      have hw := hworkers w
      simp [hworker, Worker.isRunning] at hw
  | _ => cases hinternal

/-- A task only stays in the queue when no worker is left for it. -/
theorem AtRest.busy (h : AtRest s) (hsound : Sound s) (htasks : s.tasks ≠ []) (w : Fin n) :
    (s.workers w).isRunning = true ∨ s.workers w = .exited := by
  refine (h.workers hsound.locked w).resolve_left fun hsleeping => htasks ?_
  have hasleep : awake s = 0 := by
    apply total_eq_zero
    intro w'
    rcases h.workers hsound.locked w' with hw | hw | hw
    · rw [hw]
      rfl
    · cases hworker : s.workers w' with
      | running task call => rfl
      | _ => simp [hworker, Worker.isRunning] at hw
    · rw [hw]
      rfl
  have henough := hsound.conserving.enough ⟨w, hsleeping⟩
  rw [h.announcing_eq hsound.answered, Finset.card_empty, hasleep] at henough
  exact List.length_eq_zero_iff.mp (Nat.le_zero.mp henough)

/-- In every run, while a worker sleeps there is for every task in the queue a notification to come
or a worker on its way. The internal steps come to an end, and then a task is left in the queue
only if every worker is busy with one or has exited. -/
theorem works_while_queued {size : ℤ} {events : List (Event P (workerCount size))}
    {s : State P (workerCount size)} (hrun : Run.run next (construct P size) events = some s) :
    ((∃ w, s.workers w = .sleeping) → s.tasks.length ≤ (announcing s).card + awake s) ∧
    (∀ steps t, (∀ step ∈ steps, step.isInternal = true) → Run.run next s steps = some t →
      steps.length ≤ 5 * (announcing s).card + 4 * workerCount size) ∧
    (AtRest s → s.tasks ≠ [] → ∀ w, (s.workers w).isRunning = true ∨ s.workers w = .exited) := by
  have hsound := sound_run hrun
  refine ⟨hsound.conserving.enough, ?_, fun hrest => hrest.busy hsound⟩
  intro steps t hinternal hsteps
  have hlength := Run.length_le (fun _ _ _ h hinternal hnext =>
    ⟨h.step (.of_next hnext), h.lower hinternal (.of_next hnext)⟩) hsound
    ((Run.along_forall hsteps).mpr hinternal) hsteps
  exact hlength.trans (rank_le s)

/-- A task is added while both workers sleep, and the notification is still to come. -/
def addedAsleep : List (Event Unit (workerCount 2)) :=
  [.lock first, .check first, .sleep first, .lock second, .check second, .sleep second,
    .call (.producer ()), .checkStop (.producer ()), .enqueue (.producer ())]

theorem works_while_queued_addedAsleep :
    ∃ s, Run.run next (construct Unit 2) addedAsleep = some s ∧ s.tasks = [0] ∧
      s.tasks.length ≤ (announcing s).card + awake s := by
  have hsome : (Run.run next (construct Unit 2) addedAsleep).isSome := by decide
  exact ⟨_, (Option.some_get hsome).symm, by rfl,
    (works_while_queued (Option.some_get hsome).symm).1 ⟨first, by rfl⟩⟩

end Internal

end FalconLink.ThreadPool
