import FalconLink.Foundation.Run
import Mathlib.Logic.Function.Basic

/-! # Waits that a flag ends

The threads of `T` wait on a condition variable until a predicate holds, which it does when the
flag is set. Another thread sets the flag without the mutex of the wait, notifies all of them
and joins them.
-/

namespace FalconLink.Waiting

/-- Where a thread is in its wait. -/
inductive Phase where
  /-- Outside the wait, or about to check the predicate. -/
  | away
  /-- The predicate was false. The thread holds the mutex and is about to join the wait set. -/
  | rejected
  | sleeping
  deriving DecidableEq, Repr

/-- Where the thread that stops the others is. -/
inductive Stage where
  | notBegun
  | begun
  | stored
  | notified
  | joined
  deriving DecidableEq, Repr

def Stage.hasStored : Stage → Bool
  | .notBegun | .begun => false
  | .stored | .notified | .joined => true

def Stage.hasNotified : Stage → Bool
  | .notBegun | .begun | .stored => false
  | .notified | .joined => true

structure State (T : Type*) where
  phase : T → Phase
  flag : Bool
  stage : Stage

/-- How the phase of a thread can change. It only joins the wait set after a check that found
the flag not set. -/
inductive Moves (flag : Bool) : Phase → Phase → Prop where
  | stay (phase) : Moves flag phase phase
  | reject (hflag : flag = false) : Moves flag .away .rejected
  | sleep : Moves flag .rejected .sleeping
  | wake : Moves flag .sleeping .away

variable {T : Type*}

def wakeAll (phase : T → Phase) (t : T) : Phase :=
  if phase t = .sleeping then .away else phase t

inductive Step [DecidableEq T] (s : State T) : State T → Prop where
  | skip : Step s s
  | move (t) {phase} (h : Moves s.flag (s.phase t) phase) :
      Step s { s with phase := Function.update s.phase t phase }
  | begin (hstage : s.stage = .notBegun) : Step s { s with stage := .begun }
  | store (hstage : s.stage = .begun) : Step s { s with flag := true, stage := .stored }
  | notifyAll (hstage : s.stage = .stored) :
      Step s { s with phase := wakeAll s.phase, stage := .notified }
  | join (hstage : s.stage = .notified) : Step s { s with stage := .joined }

/-- After the notification no thread waits. -/
structure Settled (s : State T) : Prop where
  flag : s.flag = s.stage.hasStored
  away : s.stage.hasNotified = true → ∀ t, s.phase t = .away

/-- The notification does not come between the check of a thread and its sleep. -/
def Calm (s s' : State T) : Prop :=
  s.stage = .stored → s'.stage = .notified → ∀ t, s.phase t ≠ .rejected

theorem Calm.of_stage_eq {s s' : State T} (h : s'.stage = s.stage) : Calm s s' := by
  intro hstored hnotified
  rw [h, hstored] at hnotified
  cases hnotified

theorem Stage.hasStored_of_hasNotified {stage : Stage} (h : stage.hasNotified = true) :
    stage.hasStored = true := by
  cases stage <;> first | rfl | cases h

theorem wakeAll_eq_away {phase : T → Phase} {t : T} (h : phase t ≠ .rejected) :
    wakeAll phase t = .away := by
  unfold wakeAll
  cases hphase : phase t with
  | away => rfl
  | rejected => exact absurd hphase h
  | sleeping => rfl

/-- With the flag set, a thread that is away stays away. -/
theorem Moves.eq_away {phase : Phase} (h : Moves true .away phase) : phase = .away := by
  cases h with
  | stay => rfl
  | reject hflag => cases hflag

variable [DecidableEq T] {s s' : State T}

theorem Step.of_eq (h : s' = s) : Step s s' :=
  h ▸ .skip

theorem Settled.step (h : Settled s) (hcalm : Calm s s') (hstep : Step s s') : Settled s' := by
  cases hstep with
  | skip => exact h
  | move t hmove =>
      refine ⟨h.flag, fun hnotified t' => ?_⟩
      have haway := h.away hnotified
      have hflag := h.flag.trans (Stage.hasStored_of_hasNotified hnotified)
      rw [hflag, haway t] at hmove
      have hphase := hmove.eq_away
      by_cases heq : t' = t
      · rw [heq]
        exact (Function.update_self t _ s.phase).trans hphase
      · exact (Function.update_of_ne heq _ s.phase).trans (haway t')
  | begin hstage => exact ⟨h.flag.trans (by rw [hstage]; rfl), nofun⟩
  | store hstage => exact ⟨rfl, nofun⟩
  | notifyAll hstage =>
      refine ⟨h.flag.trans (by rw [hstage]; rfl), fun _ t => ?_⟩
      exact wakeAll_eq_away (hcalm hstage rfl t)
  | join hstage =>
      exact ⟨h.flag.trans (by rw [hstage]; rfl), fun _ => h.away (by rw [hstage]; rfl)⟩

/-- A program whose steps are steps of its waits leaves no thread waiting after the
notification, in every run whose steps are calm. -/
theorem settled_run {σ Λ : Type*} {next : σ → Λ → Option σ} {P : σ → Λ → Prop}
    {view : σ → State T} (refines : ∀ s a s', next s a = some s' → Step (view s) (view s'))
    (calm : ∀ s a s', P s a → next s a = some s' → Calm (view s) (view s')) {s t : σ} {as : List Λ}
    (hs : Settled (view s)) (hP : Run.Along next P s as) (hrun : Run.run next s as = some t) :
    Settled (view t) :=
  Run.invariant (I := fun s => Settled (view s))
    (fun s a s' h hP hnext => h.step (calm s a s' hP hnext) (refines s a s' hnext)) hs hP hrun

end FalconLink.Waiting
