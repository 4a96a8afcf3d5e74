import FalconLink.Model.Logger
import Mathlib.Data.List.Infix
import Mathlib.Data.List.Nodup

/-! # What the logger hands on -/

namespace FalconLink.Logger

open Waiting

variable {P : Type} {s s' : State P}

/-- `log_strategy_` gets the logs in the order of the pushes and none of them twice, and when the
writer has exited it has got every log whose `pushLog` returned before `~Logger` began. -/
structure Lossless (s : State P) : Prop where
  handed_isPrefix : s.handed <+: s.pushed
  handed_nodup : s.handed.Nodup
  early_handed : s.writer = .exited → ∀ log ∈ s.early, log ∈ s.handed

/-- From the swap of a pass to its test of `done_`, and when it has exited, the writer does not look
at the queue. -/
def Writer.hasSwapped : Writer → Bool
  | .writing | .exited => true
  | .testing locked => !locked
  | _ => false

/-- `~Logger` stores `done_` in time: not when the writer has swapped and an early log has been
pushed since. -/
def StoresInTime (s : State P) : Event P → Prop
  | .store => s.writer.hasSwapped = true → ∀ log ∈ s.early, log ∉ s.queue
  | _ => True

instance (s : State P) (event : Event P) : Decidable (StoresInTime s event) := by
  cases event <;> unfold StoresInTime <;> infer_instance

/-! ## The steps -/

section Producers

variable [DecidableEq P]

/-- What an event does, and when it can happen. -/
inductive Step (s : State P) : Event P → State P → Prop where
  | call (p date logLevel msg) (hp : s.producers p = .idle) :
      Step s (.call p date logLevel msg) (setProducer s p (.locking (stamp date logLevel msg)))
  | push (p now) {stampedMsg} (hp : s.producers p = .locking stampedMsg)
      (hfree : s.writer.holdsLock = false) : Step s (.push p now) (push s p stampedMsg now)
  | ret (p) {log shouldNotify} (hp : s.producers p = .unlocked log shouldNotify) :
      Step s (.ret p) (ret s p log shouldNotify)
  | lock (hwriter : s.writer = .locking) : Step s .lock { s with writer := .checking }
  | accept (now) (hwriter : s.writer = .checking) :
      Step s (.check now) { s with writer := .passing }
  | reject (now) (hwriter : s.writer = .checking) (hdone : s.done = false) :
      Step s (.check now) { s with writer := .rejected }
  | sleep (hwriter : s.writer = .rejected) : Step s .sleep { s with writer := .sleeping }
  | wakeSpuriously (hwriter : s.writer = .sleeping) :
      Step s .wakeSpuriously { s with writer := .locking }
  | swap (hwriter : s.writer = .passing) : Step s .swap (swap s)
  | write (now) (hwriter : s.writer = .writing) : Step s (.write now) (write s now)
  | exit {locked} (hwriter : s.writer = .testing locked) (hdone : s.done = true) :
      Step s .test { s with writer := .exited }
  | loop {locked} (hwriter : s.writer = .testing locked) (hdone : s.done = false) :
      Step s .test { s with writer := .locking }
  | begin (hstage : s.destructor = .notBegun) :
      Step s .begin { s with destructor := .begun, early := s.returned }
  | store (hstage : s.destructor = .begun) :
      Step s .store { s with done := true, destructor := .stored }
  | notify (hstage : s.destructor = .stored) :
      Step s .notify { notifyOne s with destructor := .notified }
  | join (hstage : s.destructor = .notified) (hwriter : s.writer = .exited) :
      Step s .join { s with destructor := .joined }

theorem Step.of_next {event : Event P} (h : next s event = some s') : Step s event s' := by
  cases event with
  | call p date logLevel msg =>
      simp only [next] at h
      split at h
      next hp => exact Option.some.inj h ▸ .call p date logLevel msg hp
      next => cases h
  | push p now =>
      simp only [next] at h
      split at h
      next stampedMsg hp =>
        obtain ⟨hfree, h⟩ := Option.ite_none_left_eq_some.mp h
        exact Option.some.inj h ▸ .push p now hp (by simpa using hfree)
      next => cases h
  | ret p =>
      simp only [next] at h
      split at h
      next log shouldNotify hp => exact Option.some.inj h ▸ .ret p hp
      next => cases h
  | check now =>
      obtain ⟨hwriter, rfl⟩ := Run.of_guard h
      cases hpredicate : predicate s now with
      | true => exact .accept now hwriter
      | false =>
          have hdone : s.done = false := by
            simp only [predicate, Bool.or_eq_false_iff] at hpredicate
            exact hpredicate.1.1
          exact .reject now hwriter hdone
  | test =>
      simp only [next] at h
      split at h
      next locked hwriter =>
        obtain rfl := Option.some.inj h
        by_cases hdone : s.done = true
        · rw [if_pos hdone]
          exact .exit hwriter hdone
        · rw [if_neg hdone]
          exact .loop hwriter (by simpa using hdone)
      next => cases h
  | lock =>
      obtain ⟨hwriter, rfl⟩ := Run.of_guard h
      exact .lock hwriter
  | sleep =>
      obtain ⟨hwriter, rfl⟩ := Run.of_guard h
      exact .sleep hwriter
  | wakeSpuriously =>
      obtain ⟨hwriter, rfl⟩ := Run.of_guard h
      exact .wakeSpuriously hwriter
  | swap =>
      obtain ⟨hwriter, rfl⟩ := Run.of_guard h
      exact .swap hwriter
  | write now =>
      obtain ⟨hwriter, rfl⟩ := Run.of_guard h
      exact .write now hwriter
  | begin =>
      obtain ⟨hstage, rfl⟩ := Run.of_guard h
      exact .begin hstage
  | store =>
      obtain ⟨hstage, rfl⟩ := Run.of_guard h
      exact .store hstage
  | notify =>
      obtain ⟨hstage, rfl⟩ := Run.of_guard h
      exact .notify hstage
  | join =>
      obtain ⟨⟨hstage, hwriter⟩, rfl⟩ := Run.of_guard h
      exact .join hstage hwriter

end Producers

/-! ## The invariant -/

structure Inv (s : State P) : Prop where
  order : s.pushed = s.handed ++ s.writerQueue ++ s.queue
  numbers : s.pushed.map Log.number = List.range s.pushed.length
  writerQueue : s.writer ≠ .writing → s.writerQueue = []
  emptyPass : s.writer = .testing true → s.queue = []
  done : s.done = s.destructor.hasStored
  exited : s.writer = .exited → s.done = true
  unlocked : ∀ p log shouldNotify, s.producers p = .unlocked log shouldNotify → log ∈ s.pushed
  returned : ∀ log ∈ s.returned, log ∈ s.pushed
  early : ∀ log ∈ s.early, log ∈ s.pushed

theorem inv_initial (P : Type) (now : ℤ) : Inv (initial P now) where
  order := rfl
  numbers := rfl
  writerQueue _ := rfl
  emptyPass h := by cases h
  done := rfl
  exited h := by cases h
  unlocked _ _ _ h := by cases h
  returned _ h := by cases h
  early _ h := by cases h

theorem Inv.done_of_stage (h : Inv s) {stage : Stage} (hstage : s.destructor = stage) :
    s.done = stage.hasStored := by
  rw [h.done, hstage]

theorem Inv.pushed_nodup (h : Inv s) : s.pushed.Nodup := by
  have hnodup : (s.pushed.map Log.number).Nodup := by
    rw [h.numbers]
    exact List.nodup_range
  exact hnodup.of_map

theorem Inv.handed_isPrefix (h : Inv s) : s.handed <+: s.pushed := by
  rw [h.order, List.append_assoc]
  exact List.prefix_append _ _

theorem Inv.handed_nodup (h : Inv s) : s.handed.Nodup :=
  h.pushed_nodup.sublist h.handed_isPrefix.sublist

/-- A step of the writer that leaves the logs alone. -/
theorem Inv.setWriter (h : Inv s) {writer : Writer} (hwriting : s.writer ≠ .writing)
    (hempty : writer = .testing true → s.queue = []) (hexited : writer = .exited → s.done = true) :
    Inv { s with writer } where
  order := h.order
  numbers := h.numbers
  writerQueue _ := h.writerQueue hwriting
  emptyPass := hempty
  done := h.done
  exited := hexited
  unlocked := h.unlocked
  returned := h.returned
  early := h.early

theorem Inv.notifyOne (h : Inv s) : Inv (notifyOne s) := by
  by_cases hsleeping : s.writer = .sleeping
  · rw [Logger.notifyOne, if_pos hsleeping]
    exact h.setWriter (by simp [hsleeping]) nofun nofun
  · rw [Logger.notifyOne, if_neg hsleeping]
    exact h

theorem Inv.swap (h : Inv s) (hwriter : s.writer = .passing) : Inv (swap s) := by
  have hbatch := h.writerQueue (by simp [hwriter])
  by_cases hqueue : s.queue = []
  · rw [Logger.swap, if_neg (not_not.mpr hqueue)]
    exact h.setWriter (by simp [hwriter]) (fun _ => hqueue) nofun
  · rw [Logger.swap, if_pos hqueue]
    have horder : s.pushed = s.handed ++ s.queue ++ s.writerQueue := by
      simpa [hbatch] using h.order
    exact { h with order := horder, writerQueue := nofun, emptyPass := nofun, exited := nofun }

theorem Inv.write (h : Inv s) (now : ℤ) : Inv (write s now) := by
  have horder : s.pushed = (s.handed ++ s.writerQueue) ++ [] ++ s.queue := by
    simpa using h.order
  exact { h with order := horder, writerQueue := fun _ => rfl, emptyPass := nofun, exited := nofun }

section Producers

variable [DecidableEq P]

theorem Inv.setProducer (h : Inv s) (p : P) {producer : Producer}
    (hproducer : ∀ log shouldNotify, producer = .unlocked log shouldNotify → log ∈ s.pushed) :
    Inv (setProducer s p producer) where
  order := h.order
  numbers := h.numbers
  writerQueue := h.writerQueue
  emptyPass := h.emptyPass
  done := h.done
  exited := h.exited
  unlocked q log shouldNotify hq := by
    by_cases heq : q = p
    · subst heq
      exact hproducer log shouldNotify ((Function.update_self q _ s.producers).symm.trans hq)
    · exact h.unlocked q log shouldNotify ((Function.update_of_ne heq _ s.producers).symm.trans hq)
  returned := h.returned
  early := h.early

theorem Inv.push (h : Inv s) (p : P) (stampedMsg : Bytes) (now : ℤ)
    (hfree : s.writer.holdsLock = false) : Inv (push s p stampedMsg now) := by
  have hpushed : ∀ log ∈ s.pushed, log ∈ s.pushed ++ [(⟨s.pushed.length, stampedMsg⟩ : Log)] :=
    fun log hlog => List.mem_append_left _ hlog
  refine Inv.setProducer ?_ p ?_
  · refine ⟨?_, ?_, h.writerQueue, ?_, h.done, h.exited, ?_, ?_, ?_⟩
    · simp [h.order]
    · simp [h.numbers, List.range_succ]
    · intro htesting
      change s.writer = .testing true at htesting
      simp [Writer.holdsLock, htesting] at hfree
    · exact fun q log shouldNotify hq => hpushed log (h.unlocked q log shouldNotify hq)
    · exact fun log hlog => hpushed log (h.returned log hlog)
    · exact fun log hlog => hpushed log (h.early log hlog)
  · intro log shouldNotify heq
    cases heq
    simp

theorem Inv.ret (h : Inv s) {p : P} {log : Log} {shouldNotify : Bool}
    (hp : s.producers p = .unlocked log shouldNotify) : Inv (ret s p log shouldNotify) := by
  refine Inv.setProducer ?_ p nofun
  have hnotified : Inv (if shouldNotify then Logger.notifyOne s else s) := by
    split
    · exact h.notifyOne
    · exact h
  have hpushed : (if shouldNotify then Logger.notifyOne s else s).pushed = s.pushed := by
    split <;> rfl
  refine { hnotified with returned := ?_ }
  intro log' hlog
  rcases List.mem_append.mp hlog with hlog | hlog
  · exact hpushed ▸ h.returned log' hlog
  · rw [List.mem_singleton.mp hlog]
    exact hpushed ▸ h.unlocked p log shouldNotify hp

theorem Inv.step {event : Event P} (h : Inv s) (hstep : Step s event s') : Inv s' := by
  cases hstep with
  | call p date logLevel msg hp => exact h.setProducer p nofun
  | push p now hp hfree => exact h.push p _ now hfree
  | ret p hp => exact h.ret hp
  | lock hwriter => exact h.setWriter (by simp [hwriter]) nofun nofun
  | accept now hwriter => exact h.setWriter (by simp [hwriter]) nofun nofun
  | reject now hwriter hdone => exact h.setWriter (by simp [hwriter]) nofun nofun
  | sleep hwriter => exact h.setWriter (by simp [hwriter]) nofun nofun
  | wakeSpuriously hwriter => exact h.setWriter (by simp [hwriter]) nofun nofun
  | swap hwriter => exact h.swap hwriter
  | write now hwriter => exact h.write now
  | exit hwriter hdone => exact h.setWriter (by simp [hwriter]) nofun fun _ => hdone
  | loop hwriter hdone => exact h.setWriter (by simp [hwriter]) nofun nofun
  | begin hstage => exact { h with done := (h.done_of_stage hstage).trans rfl, early := h.returned }
  | store hstage => exact { h with done := rfl, exited := fun _ => rfl }
  | notify hstage => exact { h.notifyOne with done := (h.done_of_stage hstage).trans rfl }
  | join hstage hwriter => exact { h with done := (h.done_of_stage hstage).trans rfl }

end Producers

/-! ## Logs that are lost -/

/-- No early log is left in the queue by a writer that will not look at it again. -/
def Kept (s : State P) : Prop :=
  s.done = true → s.writer.hasSwapped = true → ∀ log ∈ s.early, log ∉ s.queue

theorem Inv.lossless_iff_kept (h : Inv s) : Lossless s ↔ (s.writer = .exited → Kept s) := by
  constructor
  · intro hlossless hexited _ _ log hlog hqueue
    have hnodup := h.pushed_nodup
    rw [h.order] at hnodup
    exact (List.nodup_append.mp hnodup).2.2 log
      (List.mem_append_left _ (hlossless.early_handed hexited log hlog)) log hqueue rfl
  · intro hkept
    refine ⟨h.handed_isPrefix, h.handed_nodup, fun hexited log hlog => ?_⟩
    have hqueue := hkept hexited (h.exited hexited) (by simp [hexited, Writer.hasSwapped]) log hlog
    have hpushed := h.early log hlog
    rw [h.order, h.writerQueue (by simp [hexited]), List.append_nil] at hpushed
    exact (List.mem_append.mp hpushed).resolve_right hqueue

theorem kept_congr (hdone : s'.done = s.done)
    (hwriter : s'.writer.hasSwapped = s.writer.hasSwapped) (hearly : s'.early = s.early)
    (hqueue : s'.queue = s.queue) : Kept s' ↔ Kept s := by
  rw [Kept, Kept, hdone, hwriter, hearly, hqueue]

theorem kept_of_not_hasSwapped (h : s.writer.hasSwapped = false) : Kept s := by
  intro _ hswapped
  rw [h] at hswapped
  cases hswapped

theorem kept_of_not_done (h : s.done = false) : Kept s := by
  intro hdone
  rw [h] at hdone
  cases hdone

theorem kept_of_queue_nil (h : s.queue = []) : Kept s := by
  intro _ _ log _
  simp [h]

theorem notifyOne_hasSwapped (s : State P) :
    (notifyOne s).writer.hasSwapped = s.writer.hasSwapped := by
  by_cases hsleeping : s.writer = .sleeping
  · simp [notifyOne, hsleeping, Writer.hasSwapped]
  · simp [notifyOne, hsleeping]

theorem Inv.kept_swap (h : Inv s) (hwriter : s.writer = .passing) : Kept (Logger.swap s) := by
  by_cases hqueue : s.queue = []
  · rw [Logger.swap, if_neg (not_not.mpr hqueue)]
    exact kept_of_not_hasSwapped rfl
  · rw [Logger.swap, if_pos hqueue]
    exact kept_of_queue_nil (h.writerQueue (by simp [hwriter]))

/-- The writer exits after a pass without logs, when nothing is left, or after it has swapped. -/
theorem Inv.kept_exit (h : Inv s) {locked : Bool} (hwriter : s.writer = .testing locked) :
    Kept { s with writer := .exited } ↔ Kept s := by
  cases locked with
  | false => exact kept_congr rfl (by simp [hwriter, Writer.hasSwapped]) rfl rfl
  | true =>
      have hqueue := h.emptyPass hwriter
      exact iff_of_true (kept_of_queue_nil hqueue) (kept_of_queue_nil hqueue)

section Producers

variable [DecidableEq P]

/-- A log that is pushed after `~Logger` began is not an early one. -/
theorem Inv.kept_push (h : Inv s) (p : P) (stampedMsg : Bytes) (now : ℤ) :
    Kept (Logger.push s p stampedMsg now) ↔ Kept s := by
  have hnew : (⟨s.pushed.length, stampedMsg⟩ : Log) ∉ s.early := by
    intro hearly
    have hnumber := List.mem_map_of_mem (f := Log.number) (h.early _ hearly)
    rw [h.numbers] at hnumber
    simp at hnumber
  have hqueue : ∀ log ∈ s.early,
      log ∈ s.queue ++ [(⟨s.pushed.length, stampedMsg⟩ : Log)] ↔ log ∈ s.queue := by
    intro log hlog
    rw [List.mem_append, List.mem_singleton]
    exact or_iff_left fun heq => hnew (heq ▸ hlog)
  constructor
  · intro hkept hdone hswapped log hlog
    exact mt (hqueue log hlog).mpr (hkept hdone hswapped log hlog)
  · intro hkept hdone hswapped log hlog
    exact mt (hqueue log hlog).mp (hkept hdone hswapped log hlog)

/-- An early log can only be lost by the store to `done_`. -/
theorem Inv.kept_step {event : Event P} (h : Inv s) (hstep : Step s event s') :
    Kept s' ↔ Kept s ∧ StoresInTime s event := by
  have hnotSwapped : ∀ writer, s.writer = writer → writer.hasSwapped = false → Kept s := by
    intro writer hwriter hnot
    exact kept_of_not_hasSwapped (hwriter ▸ hnot)
  cases hstep with
  | call p date logLevel msg hp => exact (and_iff_left trivial).symm
  | push p now hp hfree => exact (h.kept_push p _ now).trans (and_iff_left trivial).symm
  | @ret p log shouldNotify hp =>
      refine Iff.trans ?_ (and_iff_left trivial).symm
      cases shouldNotify with
      | false => rfl
      | true => exact kept_congr rfl (notifyOne_hasSwapped s) rfl rfl
  | lock hwriter | accept _ hwriter | reject _ hwriter | sleep hwriter | wakeSpuriously hwriter =>
      exact iff_of_true (kept_of_not_hasSwapped rfl) ⟨hnotSwapped _ hwriter rfl, trivial⟩
  | swap hwriter => exact iff_of_true (h.kept_swap hwriter) ⟨hnotSwapped _ hwriter rfl, trivial⟩
  | write now hwriter =>
      have hcongr : Kept (Logger.write s now) ↔ Kept s :=
        kept_congr rfl (by simp [Logger.write, hwriter, Writer.hasSwapped]) rfl rfl
      exact hcongr.trans (and_iff_left trivial).symm
  | exit hwriter hdone => exact (h.kept_exit hwriter).trans (and_iff_left trivial).symm
  | loop hwriter hdone =>
      exact iff_of_true (kept_of_not_hasSwapped rfl) ⟨kept_of_not_done hdone, trivial⟩
  | begin hstage =>
      have hdone : s.done = false := h.done_of_stage hstage
      exact iff_of_true (kept_of_not_done hdone) ⟨kept_of_not_done hdone, trivial⟩
  | store hstage =>
      have hdone : s.done = false := h.done_of_stage hstage
      rw [and_iff_right (kept_of_not_done hdone)]
      exact ⟨fun hkept => hkept rfl, fun hintime _ => hintime⟩
  | notify hstage =>
      have hcongr : Kept { Logger.notifyOne s with destructor := .notified } ↔ Kept s :=
        kept_congr rfl (notifyOne_hasSwapped s) rfl rfl
      exact hcongr.trans (and_iff_left trivial).symm
  | join hstage hwriter => exact (and_iff_left trivial).symm

/-! ## Runs -/

/-- Whatever the threads, the interleaving and the clock, what `log_strategy_` gets is in order
and without repetition. Logs are lost exactly in the runs that end the writer after a store to
`done_` that is not in time. -/
theorem lossless_iff {now : ℤ} {events : List (Event P)}
    (hrun : Run.run next (initial P now) events = some s) :
    s.handed <+: s.pushed ∧ s.handed.Nodup ∧
      (Lossless s ↔
        (s.writer = .exited → Run.Along next StoresInTime (initial P now) events)) := by
  have hinv : Inv s :=
    Run.invariant' (fun _ _ _ hs h => hs.step (.of_next h)) (inv_initial P now) hrun
  have hkept : Kept s ↔ Run.Along next StoresInTime (initial P now) events := by
    have hiff := Run.along_iff
      (fun _ _ _ hs h => ⟨Inv.step hs (.of_next h), hs.kept_step (.of_next h)⟩)
      (inv_initial P now) hrun
    rw [hiff, and_iff_right (kept_of_not_hasSwapped rfl)]
  exact ⟨hinv.handed_isPrefix, hinv.handed_nodup, hinv.lossless_iff_kept.trans (by rw [hkept])⟩

end Producers

/-- A thread pushes a log. -/
def pushing (msg : String) (now : ℤ) : List (Event Unit) :=
  [.call () (ascii "[01 Jan 2024 00:00:00]") .info (ascii msg), .push () now, .ret ()]

theorem lossless_idle :
    ∃ s, Run.run next (initial Unit 0) (pushing "last" 0 ++
        [.begin, .store, .notify, .lock, .check 0, .swap, .write 0, .test, .join]) = some s ∧
      s.handed.map Log.number = [0] ∧ Lossless s := by
  have hsome : (Run.run next (initial Unit 0) (pushing "last" 0 ++
      [.begin, .store, .notify, .lock, .check 0, .swap, .write 0, .test, .join])).isSome := by
    decide
  exact ⟨_, (Option.some_get hsome).symm, by rfl,
    (lossless_iff (Option.some_get hsome).symm).2.2.mpr fun _ => by decide +kernel⟩

/-- The second log is pushed and `done_` is stored while the writer hands on the first one. -/
def storedWhileWriting : List (Event Unit) :=
  pushing "first" 0 ++ [.lock, .check 4, .swap] ++ pushing "last" 5 ++
    [.begin, .store, .write 5, .test]

theorem not_lossless_writing :
    ¬∀ now events s, Run.run next (initial Unit now) events = some s → Lossless s := by
  intro h
  have hsome : (Run.run next (initial Unit 0) storedWhileWriting).isSome := by decide
  have hlossless := h 0 _ _ (Option.some_get hsome).symm
  have hearly : ((Run.run next (initial Unit 0) storedWhileWriting).get hsome).early =
      [⟨0, stamp (ascii "[01 Jan 2024 00:00:00]") .info (ascii "first")⟩,
        ⟨1, stamp (ascii "[01 Jan 2024 00:00:00]") .info (ascii "last")⟩] := by rfl
  have hhanded : ((Run.run next (initial Unit 0) storedWhileWriting).get hsome).handed =
      [⟨0, stamp (ascii "[01 Jan 2024 00:00:00]") .info (ascii "first")⟩] := by rfl
  have hlast := hlossless.early_handed (by rfl)
  rw [hearly, hhanded] at hlast
  exact absurd hlast (by decide)

/-! ## The wait of the writer -/

def Writer.phase : Writer → Phase
  | .rejected => .rejected
  | .sleeping => .sleeping
  | _ => .away

/-- What the writer and `~Logger` do to the wait. -/
def waits (s : State P) : Waiting.State Unit :=
  ⟨fun _ => s.writer.phase, s.done, s.destructor⟩

theorem waits_setWriter (s : State P) {writer : Writer}
    (h : Moves s.done s.writer.phase writer.phase) :
    Waiting.Step (waits s) (waits { s with writer }) := by
  have hphase : waits { s with writer } =
      { waits s with phase := Function.update (waits s).phase () writer.phase } := by
    rw [Function.update_eq_const_of_subsingleton]
    rfl
  rw [hphase]
  exact .move () h

theorem waits_notifyOne (s : State P) : Waiting.Step (waits s) (waits (notifyOne s)) := by
  by_cases hsleeping : s.writer = .sleeping
  · rw [notifyOne, if_pos hsleeping]
    exact waits_setWriter s (hsleeping ▸ .wake)
  · rw [notifyOne, if_neg hsleeping]
    exact .skip

theorem waits_swap (hwriter : s.writer = .passing) : waits (swap s) = waits s := by
  unfold swap
  split <;> simp [waits, hwriter, Writer.phase]

/-- One notification is enough for the only thread that waits. -/
theorem notifyOne_phase (s : State P) :
    (notifyOne s).writer.phase = wakeAll (waits s).phase () := by
  cases hwriter : s.writer <;> simp [notifyOne, wakeAll, waits, hwriter, Writer.phase]

theorem Step.waits [DecidableEq P] {event : Event P} (h : Step s event s') :
    Waiting.Step (waits s) (waits s') := by
  cases h with
  | call p date logLevel msg hp => exact .skip
  | push p now hp hfree => exact .skip
  | @ret p log shouldNotify hp =>
      cases shouldNotify with
      | false => exact .skip
      | true => exact waits_notifyOne s
  | lock hwriter => exact waits_setWriter s (hwriter ▸ .stay _)
  | accept now hwriter => exact waits_setWriter s (hwriter ▸ .stay _)
  | reject now hwriter hdone => exact waits_setWriter s (hwriter ▸ .reject hdone)
  | sleep hwriter => exact waits_setWriter s (hwriter ▸ .sleep)
  | wakeSpuriously hwriter => exact waits_setWriter s (hwriter ▸ .wake)
  | swap hwriter => exact .of_eq (waits_swap hwriter)
  | write now hwriter => exact waits_setWriter s (hwriter ▸ .stay _)
  | exit hwriter hdone => exact waits_setWriter s (hwriter ▸ .stay _)
  | loop hwriter hdone => exact waits_setWriter s (hwriter ▸ .stay _)
  | begin hstage => exact .begin hstage
  | store hstage => exact .store hstage
  | notify hstage =>
      have hwaits : Logger.waits { notifyOne s with destructor := .notified } =
          { Logger.waits s with phase := wakeAll (Logger.waits s).phase, stage := .notified } := by
        simp only [Logger.waits, notifyOne_phase]
        rfl
      exact hwaits ▸ .notifyAll hstage
  | join hstage hwriter => exact .join hstage

end FalconLink.Logger
