import FalconLink.Foundation.Run
import Mathlib.Data.Fintype.Card
import Mathlib.Data.List.Infix
import Mathlib.Data.List.Nodup
import Mathlib.Logic.Function.Basic

/-! # A queue of work

The workers of `W` take tasks from a queue and run them. A task is named by its place in the order
of enqueuing.
-/

namespace FalconLink.WorkQueue

inductive Job where
  | idle
  | taken (task : ℕ)
  | running (task : ℕ)
  deriving DecidableEq, Repr

def Job.task : Job → Option ℕ
  | .idle => none
  | .taken task | .running task => some task

structure State (W : Type*) where
  tasks : List ℕ
  job : W → Job
  enqueued : List ℕ
  dequeued : List ℕ
  started : List ℕ
  finished : List ℕ

variable {W : Type*}

inductive Step [DecidableEq W] (s : State W) : State W → Prop where
  | skip : Step s s
  | enqueue : Step s { s with
      tasks := s.tasks ++ [s.enqueued.length]
      enqueued := s.enqueued ++ [s.enqueued.length] }
  | take (w) {task tasks} (hjob : s.job w = .idle) (htasks : s.tasks = task :: tasks) :
      Step s { s with
        tasks
        dequeued := s.dequeued ++ [task]
        job := Function.update s.job w (.taken task) }
  | start (w) {task} (hjob : s.job w = .taken task) :
      Step s { s with
        started := s.started ++ [task]
        job := Function.update s.job w (.running task) }
  | finish (w) {task} (hjob : s.job w = .running task) :
      Step s { s with
        finished := s.finished ++ [task]
        job := Function.update s.job w .idle }

/-- Every task is in the queue, with one worker, or finished. -/
structure Inv (s : State W) : Prop where
  numbers : s.enqueued = List.range s.enqueued.length
  order : s.enqueued = s.dequeued ++ s.tasks
  held : ∀ w task, (s.job w).task = some task → task ∈ s.dequeued
  distinct : ∀ w w' task, (s.job w).task = some task → (s.job w').task = some task → w = w'
  unstarted : ∀ w task, s.job w = .taken task → task ∉ s.started
  started : ∀ task ∈ s.started, task ∈ s.dequeued
  once : s.started.Nodup
  finished : ∀ task ∈ s.finished, task ∈ s.dequeued
  ran : ∀ task ∈ s.dequeued, task ∈ s.finished ∨ ∃ w, (s.job w).task = some task

variable {s s' : State W}

theorem Inv.enqueued_nodup (h : Inv s) : s.enqueued.Nodup := by
  rw [h.numbers]
  exact List.nodup_range

/-- Tasks leave the queue in the order in which they entered it. -/
theorem Inv.dequeued_isPrefix (h : Inv s) : s.dequeued <+: s.enqueued := by
  rw [h.order]
  exact List.prefix_append _ _

theorem Inv.notMem_dequeued (h : Inv s) {task : ℕ} (htask : task ∈ s.tasks) :
    task ∉ s.dequeued := by
  have hnodup := h.enqueued_nodup
  rw [h.order] at hnodup
  exact fun hdequeued => (List.nodup_append.mp hnodup).2.2 task hdequeued task htask rfl

/-- When the workers hold no task, what is not finished is still in the queue. -/
theorem Inv.all_finished_iff (h : Inv s) (hidle : ∀ w, s.job w = .idle) :
    (∀ task ∈ s.enqueued, task ∈ s.finished) ↔ s.tasks = [] := by
  constructor
  · intro hall
    rw [List.eq_nil_iff_forall_not_mem]
    intro task htask
    have henqueued : task ∈ s.enqueued := by
      rw [h.order]
      exact List.mem_append_right _ htask
    exact h.notMem_dequeued htask (h.finished task (hall task henqueued))
  · intro hempty task htask
    rw [h.order, hempty, List.append_nil] at htask
    refine (h.ran task htask).resolve_right ?_
    rintro ⟨w, hw⟩
    rw [hidle w] at hw
    cases hw

/-- When every worker holds a task, that many have left the queue. -/
theorem Inv.card_le [Fintype W] (h : Inv s) (hbusy : ∀ w, ((s.job w).task).isSome) :
    Fintype.card W ≤ s.dequeued.length := by
  have hheld : ∀ w, (s.job w).task = some (((s.job w).task).get (hbusy w)) := fun w =>
    (Option.some_get (hbusy w)).symm
  have hcard := Finset.card_le_card_of_injOn (s := Finset.univ) (t := s.dequeued.toFinset)
    (fun w => ((s.job w).task).get (hbusy w))
    (fun w _ => List.mem_toFinset.mpr (h.held w _ (hheld w)))
    (fun w _ w' _ heq => h.distinct w w' _ (hheld w) ((hheld w').trans (congrArg some heq.symm)))
  exact hcard.trans (List.toFinset_card_le _)

/-! ## The steps -/

section Steps

theorem Inv.enqueue (h : Inv s) : Inv { s with
    tasks := s.tasks ++ [s.enqueued.length]
    enqueued := s.enqueued ++ [s.enqueued.length] } := by
  have hnumbers : s.enqueued ++ [s.enqueued.length] =
      List.range (s.enqueued ++ [s.enqueued.length]).length := by
    rw [List.length_append, List.length_singleton, List.range_succ, ← h.numbers]
  have horder : s.enqueued ++ [s.enqueued.length] =
      s.dequeued ++ (s.tasks ++ [s.enqueued.length]) := by
    rw [← List.append_assoc, ← h.order]
  exact { h with numbers := hnumbers, order := horder }

variable [DecidableEq W] {w : W} {task : ℕ}

theorem Step.of_eq (h : s' = s) : Step s s' :=
  h ▸ .skip

theorem update_task_iff {job : W → Job} {w' : W} {new : Job} :
    (Function.update job w new w').task = some task ↔
      (w' = w ∧ new.task = some task) ∨ (w' ≠ w ∧ (job w').task = some task) := by
  by_cases heq : w' = w
  · subst heq
    simp
  · simp [heq]

theorem update_taken_iff {job : W → Job} {w' : W} {new : Job} :
    Function.update job w new w' = .taken task ↔
      (w' = w ∧ new = .taken task) ∨ (w' ≠ w ∧ job w' = .taken task) := by
  by_cases heq : w' = w
  · subst heq
    simp
  · simp [heq]

/-- The front of the queue is held by nobody yet. -/
theorem Inv.take (h : Inv s) {tasks : List ℕ} (hjob : s.job w = .idle)
    (htasks : s.tasks = task :: tasks) : Inv { s with
      tasks
      dequeued := s.dequeued ++ [task]
      job := Function.update s.job w (.taken task) } := by
  have hnew : task ∉ s.dequeued := h.notMem_dequeued (by simp [htasks])
  constructor
  · exact h.numbers
  · simp [h.order, htasks]
  · intro w' task' hheld
    rcases update_task_iff.mp hheld with ⟨-, hsame⟩ | ⟨-, hold⟩
    · obtain rfl := Option.some.inj hsame
      exact List.mem_append_right _ (List.mem_singleton_self task)
    · exact List.mem_append_left _ (h.held w' task' hold)
  · intro w₁ w₂ task' h₁ h₂
    rcases update_task_iff.mp h₁ with ⟨rfl, hsame₁⟩ | ⟨-, hold₁⟩
    · rcases update_task_iff.mp h₂ with ⟨rfl, -⟩ | ⟨-, hold₂⟩
      · rfl
      · obtain rfl := Option.some.inj hsame₁
        exact absurd (h.held w₂ task hold₂) hnew
    · rcases update_task_iff.mp h₂ with ⟨rfl, hsame₂⟩ | ⟨-, hold₂⟩
      · obtain rfl := Option.some.inj hsame₂
        exact absurd (h.held w₁ task hold₁) hnew
      · exact h.distinct w₁ w₂ task' hold₁ hold₂
  · intro w' task' htaken
    rcases update_taken_iff.mp htaken with ⟨-, hsame⟩ | ⟨-, hold⟩
    · obtain rfl := Job.taken.inj hsame
      exact mt (h.started task) hnew
    · exact h.unstarted w' task' hold
  · exact fun task' hstarted => List.mem_append_left _ (h.started task' hstarted)
  · exact h.once
  · exact fun task' hfinished => List.mem_append_left _ (h.finished task' hfinished)
  · intro task' hdequeued
    rcases List.mem_append.mp hdequeued with hold | hlast
    · refine (h.ran task' hold).imp_right ?_
      rintro ⟨w', hheld⟩
      have hne : w' ≠ w := by
        rintro rfl
        rw [hjob] at hheld
        cases hheld
      exact ⟨w', update_task_iff.mpr (.inr ⟨hne, hheld⟩)⟩
    · rw [List.mem_singleton.mp hlast]
      exact .inr ⟨w, update_task_iff.mpr (.inl ⟨rfl, rfl⟩)⟩

theorem Inv.start (h : Inv s) (hjob : s.job w = .taken task) : Inv { s with
    started := s.started ++ [task]
    job := Function.update s.job w (.running task) } := by
  have htask : (s.job w).task = some task := by
    rw [hjob]
    rfl
  have hheld : ∀ w' task', (Function.update s.job w (.running task) w').task = some task' ↔
      (s.job w').task = some task' := by
    intro w' task'
    rw [update_task_iff]
    by_cases heq : w' = w
    · rw [heq, htask]
      simp [Job.task]
    · simp [heq]
  refine { h with held := ?_, distinct := ?_, unstarted := ?_, started := ?_, once := ?_, ran := ?_ }
  · exact fun w' task' hw => h.held w' task' ((hheld w' task').mp hw)
  · exact fun w₁ w₂ task' h₁ h₂ =>
      h.distinct w₁ w₂ task' ((hheld w₁ task').mp h₁) ((hheld w₂ task').mp h₂)
  · intro w' task' htaken
    rcases update_taken_iff.mp htaken with ⟨-, hsame⟩ | ⟨hne, hold⟩
    · cases hsame
    · intro hstarted
      rcases List.mem_append.mp hstarted with hbefore | hlast
      · exact h.unstarted w' task' hold hbefore
      · have hsame : (s.job w').task = some task := by
          rw [hold, List.mem_singleton.mp hlast]
          rfl
        exact hne (h.distinct w' w task hsame htask)
  · intro task' hstarted
    rcases List.mem_append.mp hstarted with hbefore | hlast
    · exact h.started task' hbefore
    · rw [List.mem_singleton.mp hlast]
      exact h.held w task htask
  · exact List.nodup_append.mpr ⟨h.once, List.nodup_singleton task, fun task' hstarted _ hlast heq =>
      h.unstarted w task hjob (List.mem_singleton.mp hlast ▸ heq ▸ hstarted)⟩
  · intro task' hdequeued
    refine (h.ran task' hdequeued).imp_right ?_
    rintro ⟨w', hw⟩
    exact ⟨w', (hheld w' task').mpr hw⟩

theorem Inv.finish (h : Inv s) (hjob : s.job w = .running task) : Inv { s with
    finished := s.finished ++ [task]
    job := Function.update s.job w .idle } := by
  have htask : (s.job w).task = some task := by
    rw [hjob]
    rfl
  have hheld : ∀ w' task', (Function.update s.job w .idle w').task = some task' →
      (s.job w').task = some task' := by
    intro w' task' hw
    rcases update_task_iff.mp hw with ⟨-, hidle⟩ | ⟨-, hold⟩
    · cases hidle
    · exact hold
  refine { h with held := ?_, distinct := ?_, unstarted := ?_, finished := ?_, ran := ?_ }
  · exact fun w' task' hw => h.held w' task' (hheld w' task' hw)
  · exact fun w₁ w₂ task' h₁ h₂ =>
      h.distinct w₁ w₂ task' (hheld w₁ task' h₁) (hheld w₂ task' h₂)
  · intro w' task' htaken
    rcases update_taken_iff.mp htaken with ⟨-, hidle⟩ | ⟨-, hold⟩
    · cases hidle
    · exact h.unstarted w' task' hold
  · intro task' hfinished
    rcases List.mem_append.mp hfinished with hbefore | hlast
    · exact h.finished task' hbefore
    · rw [List.mem_singleton.mp hlast]
      exact h.held w task htask
  · intro task' hdequeued
    rcases h.ran task' hdequeued with hfinished | ⟨w', hw⟩
    · exact .inl (List.mem_append_left _ hfinished)
    · by_cases heq : w' = w
      · rw [heq, htask] at hw
        exact .inl (List.mem_append_right _ (List.mem_singleton.mpr (Option.some.inj hw).symm))
      · exact .inr ⟨w', update_task_iff.mpr (.inr ⟨heq, hw⟩)⟩

theorem Inv.step (h : Inv s) (hstep : Step s s') : Inv s' := by
  cases hstep with
  | skip => exact h
  | enqueue => exact h.enqueue
  | take w hjob htasks => exact h.take hjob htasks
  | start w hjob => exact h.start hjob
  | finish w hjob => exact h.finish hjob

end Steps

/-- A program whose steps are steps of its queue keeps the invariant in every run. -/
theorem inv_run [DecidableEq W] {σ Λ : Type*} {next : σ → Λ → Option σ} {view : σ → State W}
    (refines : ∀ s a s', next s a = some s' → Step (view s) (view s')) {s t : σ} {as : List Λ}
    (hs : Inv (view s)) (hrun : Run.run next s as = some t) : Inv (view t) :=
  Run.invariant' (I := fun s => Inv (view s))
    (fun s a s' h hnext => h.step (refines s a s' hnext)) hs hrun

end FalconLink.WorkQueue
