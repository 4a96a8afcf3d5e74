import FalconLink.Verification.Logger

/-! # What the log writer wakes up for

The predicate of the wait also holds when the last flush is long ago, and only a pass with logs
moves the time of the last flush.
-/

namespace FalconLink.Logger

variable {P : Type}

/-- The logger in a pass of the writer loop, with the number of logs that `log_strategy_` had got
when the pass began. -/
structure Pass (P : Type) where
  state : State P
  begun : ℕ

/-- The test of `done_` ends a pass. -/
def passNext [DecidableEq P] (s : Pass P) (event : Event P) : Option (Pass P) :=
  (next s.state event).map fun t =>
    ⟨t, match event with
      | .test => t.handed.length
      | _ => s.begun⟩

/-- The wait does not return to an empty queue before `done_` is set, and a pass that does not exit
has handed on a log. -/
structure Woken (s : Pass P) : Prop where
  work : s.state.writer = .passing → s.state.done = false → s.state.queue ≠ []
  progress : ∀ locked, s.state.writer = .testing locked → s.state.done = false →
    s.begun < s.state.handed.length

/-- When the predicate is evaluated on an empty queue before `done_` is set, the last flush is not
longer ago than the threshold. -/
def FreshWhenEmpty (s : Pass P) : Event P → Prop
  | .check now => s.state.done = false → s.state.queue = [] → isStale s.state now = false
  | _ => True

instance (s : Pass P) : (event : Event P) → Decidable (FreshWhenEmpty s event)
  | .check now => inferInstanceAs (Decidable
      (s.state.done = false → s.state.queue = [] → isStale s.state now = false))
  | .call _ _ _ _ | .push _ _ | .ret _ | .lock | .sleep | .wakeSpuriously | .swap | .write _
  | .test | .begin | .store | .notify | .join => isTrue trivial

/-! ## The invariant -/

/-- What the writer has to show for the pass it is in. -/
def Worked (begun : ℕ) (s : State P) : Prop :=
  match s.writer with
  | .passing => s.done = false → s.queue ≠ []
  | .writing => s.writerQueue ≠ []
  | .testing true => s.done = true
  | .testing false => begun < s.handed.length
  | _ => True

structure PassInv (s : Pass P) : Prop where
  begun_le : s.begun ≤ s.state.handed.length
  worked : Worked s.begun s.state

theorem passInv_initial (P : Type) (now : ℤ) : PassInv ⟨initial P now, 0⟩ :=
  ⟨Nat.zero_le _, trivial⟩

theorem PassInv.woken {s : Pass P} (h : PassInv s) : Woken s := by
  have hworked := h.worked
  refine ⟨fun hwriter => ?_, fun locked hwriter hdone => ?_⟩
  · rw [Worked, hwriter] at hworked
    exact hworked
  · cases locked with
    | true =>
        rw [Worked, hwriter] at hworked
        exact absurd (hdone.symm.trans hworked) (by decide)
    | false =>
        rw [Worked, hwriter] at hworked
        exact hworked

variable {begun : ℕ} {s s' : State P}

/-- Another thread can only give the writer more to show. -/
theorem Worked.mono (h : Worked begun s) (hwriter : s'.writer = s.writer)
    (hdone : s.done = true → s'.done = true) (hqueue : s.queue ≠ [] → s'.queue ≠ [])
    (hwriterQueue : s'.writerQueue = s.writerQueue) (hhanded : s'.handed = s.handed) :
    Worked begun s' := by
  unfold Worked at h ⊢
  rw [hwriter]
  split at h
  · intro hnotDone
    refine hqueue (h (Bool.eq_false_iff.mpr fun hset => ?_))
    exact absurd (hnotDone.symm.trans (hdone hset)) (by decide)
  · rwa [hwriterQueue]
  · exact hdone h
  · rwa [hhanded]
  · trivial

theorem Worked.notifyOne (h : Worked begun s) : Worked begun (notifyOne s) := by
  by_cases hsleeping : s.writer = .sleeping
  · rw [Logger.notifyOne, if_pos hsleeping]
    trivial
  · rw [Logger.notifyOne, if_neg hsleeping]
    exact h

theorem Worked.swap (h : Worked begun s) (hwriter : s.writer = .passing) :
    Worked begun (swap s) := by
  rw [Worked, hwriter] at h
  by_cases hqueue : s.queue = []
  · rw [Logger.swap, if_neg (not_not.mpr hqueue)]
    have hdone : s.done = true := by
      by_contra hnotDone
      exact h (Bool.eq_false_iff.mpr hnotDone) hqueue
    exact hdone
  · rw [Logger.swap, if_pos hqueue]
    exact hqueue

theorem Worked.write (h : Worked begun s) (hbegun : begun ≤ s.handed.length)
    (hwriter : s.writer = .writing) (now : ℤ) : Worked begun (write s now) := by
  rw [Worked, hwriter] at h
  have hpos : 0 < s.writerQueue.length := List.length_pos_iff.mpr h
  have hlen : begun < (s.handed ++ s.writerQueue).length := by
    rw [List.length_append]
    omega
  exact hlen

/-- With nothing else to do, the writer looks at the clock. -/
theorem predicate_idle (hdone : s.done = false) (hqueue : s.queue = []) (now : ℤ) :
    predicate s now = isStale s now := by
  rw [predicate, hdone, hqueue]
  rfl

section Producers

variable [DecidableEq P]

theorem next_check {now : ℤ} (h : next s (.check now) = some s') :
    s' = { s with writer := if predicate s now then .passing else .rejected } :=
  (Run.of_guard h).2

theorem Worked.step {event : Event P} {begun' : ℕ} (h : Worked begun s)
    (hbegun : begun ≤ s.handed.length) (hsame : event ≠ .test → begun' = begun)
    (haccept : ∀ now, event = .check now → s'.writer = .passing → s.done = false → s.queue ≠ [])
    (hstep : Step s event s') : Worked begun' s' := by
  cases hstep with
  | call p date logLevel msg hp =>
      exact hsame nofun ▸ h.mono rfl id id rfl rfl
  | push p now hp hfree =>
      exact hsame nofun ▸ h.mono rfl id (fun _ => List.append_ne_nil_of_right_ne_nil _ (by simp))
        rfl rfl
  | @ret p log shouldNotify hp =>
      rw [hsame nofun]
      cases shouldNotify with
      | false => exact h.mono rfl id id rfl rfl
      | true => exact h.notifyOne.mono rfl id id rfl rfl
  | lock hwriter | reject _ hwriter | sleep hwriter | wakeSpuriously hwriter => trivial
  | accept now hwriter => exact haccept now rfl rfl
  | swap hwriter => exact hsame nofun ▸ h.swap hwriter
  | write now hwriter => exact hsame nofun ▸ h.write hbegun hwriter now
  | exit hwriter hdone | loop hwriter hdone => trivial
  | begin hstage => exact hsame nofun ▸ h.mono rfl id id rfl rfl
  | store hstage => exact hsame nofun ▸ h.mono rfl (fun _ => rfl) id rfl rfl
  | notify hstage => exact hsame nofun ▸ h.notifyOne.mono rfl id id rfl rfl
  | join hstage hwriter => exact hsame nofun ▸ h.mono rfl id id rfl rfl

/-! ## Runs -/

theorem passNext_eq {s t : Pass P} {event : Event P} (h : passNext s event = some t) :
    next s.state event = some t.state ∧ (event ≠ .test → t.begun = s.begun) ∧
      (event = .test → t.begun = t.state.handed.length) := by
  obtain ⟨state, hnext, rfl⟩ := Option.map_eq_some_iff.mp h
  refine ⟨hnext, fun hother => ?_, fun htest => ?_⟩
  · cases event <;> first | rfl | exact absurd rfl hother
  · rw [htest]

theorem run_passNext {events : List (Event P)} {t : State P} :
    ∀ {s : Pass P}, Run.run next s.state events = some t →
      ∃ begun, Run.run passNext s events = some ⟨t, begun⟩ := by
  induction events with
  | nil =>
      intro s h
      obtain rfl := Option.some.inj h
      exact ⟨s.begun, rfl⟩
  | cons event events ih =>
      intro s h
      obtain ⟨u, hnext, hrun⟩ := Run.exists_of_run_cons h
      have hpass : passNext s event = some _ := congrArg (Option.map _) hnext
      rw [Run.run_cons events hpass]
      exact ih hrun

theorem handed_le {event : Event P} (h : next s event = some s') :
    s.handed.length ≤ s'.handed.length := by
  cases Step.of_next h with
  | write now hwriter =>
      change _ ≤ (s.handed ++ s.writerQueue).length
      rw [List.length_append]
      omega
  | swap hwriter =>
      rw [Logger.swap]
      split <;> exact le_rfl
  | @ret p log shouldNotify hp => cases shouldNotify <;> exact le_rfl
  | _ => exact le_rfl

theorem PassInv.step {s t : Pass P} {event : Event P} (h : PassInv s)
    (hfresh : FreshWhenEmpty s event) (hnext : passNext s event = some t) : PassInv t := by
  obtain ⟨hstate, hsame, htest⟩ := passNext_eq hnext
  have hle : t.begun ≤ t.state.handed.length := by
    by_cases hevent : event = .test
    · exact (htest hevent).le
    · exact hsame hevent ▸ h.begun_le.trans (handed_le hstate)
  refine ⟨hle, h.worked.step h.begun_le hsame ?_ (.of_next hstate)⟩
  rintro now rfl hpassing hdone hqueue
  have hidle := predicate_idle hdone hqueue now
  rw [next_check hstate, hidle, hfresh hdone hqueue] at hpassing
  cases hpassing

/-- A wait that returns to an empty queue has looked at the clock. -/
theorem freshWhenEmpty_of_woken {s t : Pass P} {event : Event P}
    (hnext : passNext s event = some t) (ht : Woken t) : FreshWhenEmpty s event := by
  cases event with
  | check now =>
      intro hdone hqueue
      by_contra hstale
      have hstate := next_check (passNext_eq hnext).1
      rw [predicate_idle hdone hqueue, if_pos (eq_true_of_ne_false hstale)] at hstate
      have hwork := ht.work
      rw [hstate] at hwork
      exact hwork rfl hdone hqueue
  | _ => trivial

/-- The writer wakes up for logs only, in every pass of a run, exactly when it never looks at the
clock with an empty queue after the threshold. -/
theorem woken_iff {now : ℤ} {events : List (Event P)} {s : State P}
    (hrun : Run.run next (initial P now) events = some s) :
    Run.Always passNext Woken ⟨initial P now, 0⟩ events ↔
      Run.Along passNext FreshWhenEmpty ⟨initial P now, 0⟩ events := by
  obtain ⟨begun, hpasses⟩ := run_passNext (s := ⟨initial P now, 0⟩) hrun
  exact Run.always_iff (fun _ hs => hs.woken) (fun _ _ _ hs hP hnext => hs.step hP hnext)
    (fun _ _ _ _ hnext ht => freshWhenEmpty_of_woken hnext ht) (passInv_initial P now) hpasses

end Producers

/-- A log is pushed and handed on; later the writer looks again, within the threshold. -/
def busy : List (Event Unit) :=
  pushing "first" 4 ++ [.lock, .check 4, .swap, .write 5, .test, .lock, .check 8, .sleep]

theorem woken_busy : Run.Always passNext Woken ⟨initial Unit 0, 0⟩ busy := by
  have hsome : (Run.run next (initial Unit 0) busy).isSome := by decide
  exact (woken_iff (Option.some_get hsome).symm).mpr (by decide)

/-- Four milliseconds after the start, nothing has been logged. -/
theorem not_woken_idle :
    ¬∀ now (events : List (Event Unit)) s, Run.run next (initial Unit now) events = some s →
      Run.Always passNext Woken ⟨initial Unit now, 0⟩ events := by
  intro h
  have hsome : (Run.run next (initial Unit 0) [.lock, .check 4, .swap, .test]).isSome := by decide
  have halways := h 0 _ _ (Option.some_get hsome).symm
  have hpassing := ((halways.2 _ rfl).2 _ rfl).head
  exact hpassing.work rfl rfl rfl

end FalconLink.Logger
