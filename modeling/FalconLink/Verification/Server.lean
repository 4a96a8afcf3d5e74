import FalconLink.Model.Server
import FalconLink.Verification.Scheduling

/-! # Starting and destroying a server

The sub reactors of a server loop on its pool until they are destroyed, which `~Server` does after the
pool has joined its workers.
-/

namespace FalconLink.Server

open ThreadPool (Sound Undisturbed Drained AtRest workerCount)

/-! ## The tasks of the pool -/

/-- A call that has not enqueued its task yet. -/
def pending : ThreadPool.Call → ℕ
  | .called | .checked => 1
  | .idle | .enqueued _ => 0

/-- Only the main thread calls the pool, and it has done so `count` times. -/
structure Loaded {n : ℕ} (count : ℕ) (pool : ThreadPool.State Unit n) : Prop where
  workers : ∀ w task call, pool.workers w = .running task call → call = .idle
  enqueued : pool.enqueued.length + pending (pool.producers ()) = count

section Pool

variable {n count : ℕ} {pool pool' : ThreadPool.State Unit n}

theorem Loaded.caller (h : Loaded count pool) {caller : ThreadPool.Caller Unit n}
    {call : ThreadPool.Call} (hcall : pool.call caller = some call) (hbusy : call ≠ .idle) :
    caller = .producer () ∧ pool.producers () = call := by
  cases caller with
  | producer p => exact ⟨rfl, Option.some.inj hcall⟩
  | worker w =>
      cases hworker : pool.workers w with
      | running task old =>
          have hold : old = call := by
            simpa [ThreadPool.State.call, hworker, ThreadPool.Worker.call] using hcall
          exact absurd (hold ▸ h.workers w task old hworker) hbusy
      | _ => simp [ThreadPool.State.call, hworker, ThreadPool.Worker.call] at hcall

theorem Loaded.setWorker (h : Loaded count pool) (w : Fin n) (worker : ThreadPool.Worker)
    (hworker : ∀ task call, worker = .running task call → call = .idle) :
    Loaded count (ThreadPool.setWorker pool w worker) := by
  refine ⟨fun w' task call hrunning => ?_, h.enqueued⟩
  by_cases heq : w' = w
  · subst heq
    exact hworker task call (by simpa [ThreadPool.setWorker] using hrunning)
  · exact h.workers w' task call (by simpa [ThreadPool.setWorker, heq] using hrunning)

theorem Loaded.step (h : Loaded count pool) {event : ThreadPool.Event Unit n}
    (hcalls : ∀ caller, event ≠ .call caller)
    (hrunning : pool.producers () ≠ .idle → pool.stop = false)
    (hstep : ThreadPool.Step pool event pool') : Loaded count pool' := by
  have henqueued := h.enqueued
  cases hstep with
  | call caller hcall => exact absurd rfl (hcalls caller)
  | refuse caller hcall hstop =>
      rcases h.caller hcall (by simp) with ⟨rfl, hmain⟩
      rw [hrunning (by simp [hmain])] at hstop
      cases hstop
  | pass caller hcall hstop =>
      rcases h.caller hcall (by simp) with ⟨rfl, hmain⟩
      rw [hmain] at henqueued
      exact ⟨h.workers, by simpa [ThreadPool.setCall, pending] using henqueued⟩
  | enqueue caller hcall hfree =>
      rcases h.caller hcall (by simp) with ⟨rfl, hmain⟩
      rw [hmain] at henqueued
      exact ⟨h.workers, by simpa [ThreadPool.enqueue, ThreadPool.setCall, pending] using henqueued⟩
  | @wake caller woken task hcall hwoken =>
      rcases h.caller hcall (by simp) with ⟨rfl, hmain⟩
      rw [hmain] at henqueued
      have hwake := h.setWorker woken .locking (by simp)
      refine ⟨hwake.workers, ?_⟩
      simpa [ThreadPool.setCall, ThreadPool.setWorker, pending] using henqueued
  | wakeNone caller hcall hnone =>
      rcases h.caller hcall (by simp) with ⟨rfl, hmain⟩
      rw [hmain] at henqueued
      exact ⟨h.workers, by simpa [ThreadPool.setCall, pending] using henqueued⟩
  | lock w | accept w | reject w | sleep w | wakeSpuriously w | exit w =>
      exact h.setWorker w _ (by simp)
  | @take w task tasks hworker htasks =>
      have htaken := h.setWorker w (.taken task) (by simp)
      exact ⟨htaken.workers, htaken.enqueued⟩
  | @start w task hworker =>
      have hstarted := h.setWorker w (.running task .idle)
        (fun _ _ hsame => (ThreadPool.Worker.running.inj hsame).2.symm)
      exact ⟨hstarted.workers, hstarted.enqueued⟩
  | finish w hworker =>
      have hfinished := h.setWorker w .locking (by simp)
      exact ⟨hfinished.workers, hfinished.enqueued⟩
  | begin hstage => exact ⟨h.workers, h.enqueued⟩
  | store hstage => exact ⟨h.workers, h.enqueued⟩
  | notifyAll hstage =>
      refine ⟨fun w task call hrunning => h.workers w task call ?_, h.enqueued⟩
      simp only [ThreadPool.notifyAll] at hrunning
      grind
  | join hstage hexited => exact ⟨h.workers, h.enqueued⟩

theorem mem_finished_of_step {event : ThreadPool.Event Unit n}
    (hstep : ThreadPool.Step pool event pool') {task : ThreadPool.Task}
    (htask : task ∈ pool'.finished) :
    task ∈ pool.finished ∨ ∃ w, event = .finish w ∧ pool.workers w = .running task .idle := by
  cases hstep with
  | call | refuse | pass | wake | wakeNone =>
      rw [ThreadPool.setCall_eq] at htask
      exact Or.inl htask
  | enqueue =>
      rw [ThreadPool.enqueue, ThreadPool.setCall_eq] at htask
      exact Or.inl htask
  | @finish w task' hworker =>
      rcases List.mem_append.mp htask with hbefore | hlast
      · exact Or.inl hbefore
      · rw [List.mem_singleton.mp hlast]
        exact Or.inr ⟨w, rfl, hworker⟩
  | _ => exact Or.inl htask

theorem Loaded.idle_step (h : Loaded count pool) {event : ThreadPool.Event Unit n}
    (hcalls : ∀ caller, event ≠ .call caller) (hidle : pool.producers () = .idle)
    (hstep : ThreadPool.Step pool event pool') : pool'.producers () = .idle := by
  have hnot : ∀ {caller call}, pool.call caller = some call → call = .idle := by
    intro caller call hcall
    by_contra hbusy
    exact hbusy ((h.caller hcall hbusy).2.symm.trans hidle)
  cases hstep with
  | call caller hcall => exact absurd rfl (hcalls caller)
  | refuse caller hcall | pass caller hcall | enqueue caller hcall | wake caller hcall
  | wakeNone caller hcall => cases hnot hcall
  | _ => exact hidle

theorem begun_of_step {event : ThreadPool.Event Unit n}
    (hstep : ThreadPool.Step pool event pool') (hbegun : pool'.destructor ≠ .notBegun) :
    pool.destructor ≠ .notBegun ∨ event = .begin := by
  cases hstep with
  | call | refuse | pass | wake | wakeNone =>
      rw [ThreadPool.setCall_eq] at hbegun
      exact Or.inl hbegun
  | enqueue =>
      rw [ThreadPool.enqueue, ThreadPool.setCall_eq] at hbegun
      exact Or.inl hbegun
  | begin hstage => exact Or.inr rfl
  | store hstage | notifyAll hstage | join hstage => exact Or.inl (by simp [hstage])
  | _ => exact Or.inl hbegun

theorem joined_step_iff {event : ThreadPool.Event Unit n}
    (hstep : ThreadPool.Step pool event pool') :
    pool'.destructor = .joined ↔ pool.destructor = .joined ∨ event = .join := by
  cases hstep with
  | call | refuse | pass | wake | wakeNone =>
      rw [ThreadPool.setCall_eq]
      simp [ThreadPool.setWorker]
  | enqueue =>
      rw [ThreadPool.enqueue, ThreadPool.setCall_eq]
      simp
  | begin hstage | store hstage | notifyAll hstage => simp [hstage]
  | join hstage => simp
  | _ => simp [ThreadPool.setWorker]

end Pool

/-! ## Whole runs -/

variable {concurrency : ℤ}

/-- The number of tasks that the main thread has added, or is adding. -/
def Main.count (n : ℕ) : Main → ℕ
  | .adding count => count
  | .ready | .serving | .destroying _ | .destroyed _ => n

def Main.isOver : Main → Bool
  | .adding _ | .ready | .serving => false
  | .destroying _ | .destroyed _ => true

/-- The constructor of the server has not returned. -/
def Main.isUnbuilt : Main → Bool
  | .adding _ | .destroying (some _) | .destroyed (some _) => true
  | .ready | .serving | .destroying none | .destroyed none => false

structure Inv (s : State (workerCount concurrency)) : Prop where
  sound : Sound s.pool
  undisturbed : Undisturbed s.pool
  drained : Drained s.pool
  loaded : Loaded (s.main.count (workerCount concurrency)) s.pool
  le : s.main.count (workerCount concurrency) ≤ workerCount concurrency
  idle : (∀ count, s.main ≠ .adding count) → s.pool.producers () = .idle
  begun : s.pool.destructor ≠ .notBegun → s.main.isOver = true
  quit : ∀ i, s.quit i = true → ∃ failure, s.main = .destroyed failure
  finished : ∀ task ∈ s.pool.finished, loopEnds s task = true
  threw : ∀ i, s.threw i = true → s.connected i = true
  unbuilt : s.main.isUnbuilt = true → ∀ i, s.connected i = false
  gone : ∀ failure, s.main = .destroyed failure → s.pool.destructor = .joined
  joined : s.pool.destructor = .joined → ∀ i, s.threw i = true

variable {n : ℕ} {s s' : State (workerCount concurrency)}

theorem loaded_construct (concurrency : ℤ) :
    Loaded 0 (ThreadPool.construct Unit concurrency) where
  workers _ _ _ h := by cases h
  enqueued := rfl

theorem inv_construct (concurrency : ℤ) : Inv (construct concurrency) where
  sound := ThreadPool.sound_run (show Run.run ThreadPool.next _ [] = some _ from rfl)
  undisturbed := ⟨fun _ _ => rfl, fun _ => rfl, fun _ h => by cases h⟩
  drained _ := rfl
  loaded := loaded_construct concurrency
  le := Nat.zero_le _
  idle _ := rfl
  begun h := absurd rfl h
  quit _ h := by cases h
  finished _ h := by cases h
  threw _ h := by cases h
  unbuilt _ _ := rfl
  gone _ h := by cases h
  joined h := by cases h

theorem loopEnds_eq (s : State (workerCount concurrency)) (i : Fin (workerCount concurrency)) :
    loopEnds s i = (s.quit i || s.threw i) :=
  dif_pos i.isLt

theorem Inv.stop (h : Inv s) (hidle : s.pool.producers () ≠ .idle) : s.pool.stop = false := by
  apply h.undisturbed.running
  by_contra hbegun
  exact hidle (h.undisturbed.idle hbegun ())

theorem permits_not_call {event : ThreadPool.Event Unit (workerCount concurrency)}
    (hpermits : permits s event = true) (caller : ThreadPool.Caller Unit (workerCount concurrency)) :
    event ≠ .call caller := by
  rintro rfl
  cases hpermits

/-- No step of the pool that is permitted disturbs its end. -/
theorem Inv.callsOver (h : Inv s) {event : ThreadPool.Event Unit (workerCount concurrency)}
    (hpermits : permits s event = true) : ThreadPool.CallsOver s.pool event := by
  cases event with
  | begin =>
      intro p
      apply h.idle
      intro count hmain
      simp [permits, hmain] at hpermits
  | call caller => cases hpermits
  | _ => trivial

/-- When the workers are joined, the loop of every sub reactor has ended. -/
theorem Inv.ended (h : Inv s) (hover : s.main.isOver = true)
    (hexited : ∀ w, s.pool.workers w = .exited) (i : Fin (workerCount concurrency)) :
    loopEnds s i = true := by
  have hcount : s.main.count (workerCount concurrency) = workerCount concurrency := by
    cases hmain : s.main with
    | adding count => simp [hmain, Main.isOver] at hover
    | _ => rfl
  have hidle : s.pool.producers () = .idle := by
    apply h.idle
    intro count hmain
    simp [hmain, Main.isOver] at hover
  have hlength := h.loaded.enqueued
  rw [hcount, hidle] at hlength
  have hmem : (i : ℕ) ∈ s.pool.enqueued := by
    have hnumbers : s.pool.enqueued = List.range s.pool.enqueued.length := h.sound.work.numbers
    rw [hnumbers, List.mem_range]
    exact i.isLt.trans_eq hlength.symm
  have hjobs : ∀ w, (ThreadPool.work s.pool).job w = .idle := by
    intro w
    change (s.pool.workers w).job = .idle
    rw [hexited w]
    rfl
  exact h.finished i ((h.sound.work.all_finished_iff hjobs).mpr (h.drained hexited) i hmem)

/-- A step of the pool that the main thread or a worker takes. -/
theorem Inv.pool (h : Inv s) {event : ThreadPool.Event Unit (workerCount concurrency)}
    {pool : ThreadPool.State Unit (workerCount concurrency)} (hpermits : permits s event = true)
    (hstep : ThreadPool.Step s.pool event pool) : Inv { s with pool } where
  sound := h.sound.step hstep
  undisturbed := h.undisturbed.step (h.callsOver hpermits) hstep
  drained := hstep.drained.mpr ⟨h.drained, h.undisturbed.enqueuesInTime hstep⟩
  loaded := h.loaded.step (permits_not_call hpermits) h.stop hstep
  le := h.le
  idle hmain := h.loaded.idle_step (permits_not_call hpermits) (h.idle hmain) hstep
  begun hbegun := by
    rcases begun_of_step hstep hbegun with hold | rfl
    · exact h.begun hold
    · cases hmain : s.main with
      | destroying failure => simp [Main.isOver]
      | _ => simp [permits, hmain] at hpermits
  quit := h.quit
  finished task htask := by
    rcases mem_finished_of_step hstep htask with hold | ⟨w, rfl, hworker⟩
    · exact h.finished task hold
    · change loopEnds s task = true
      simpa [permits, hworker] using hpermits
  threw := h.threw
  unbuilt := h.unbuilt
  gone failure hmain := (joined_step_iff hstep).mpr (Or.inl (h.gone failure hmain))
  joined hjoined i := by
    rcases (joined_step_iff hstep).mp hjoined with hold | rfl
    · exact h.joined hold i
    · cases hstep with
      | join hstage hexited =>
          have hover := h.begun (by simp [hstage])
          have hended := h.ended hover hexited i
          rw [loopEnds_eq, Bool.or_eq_true] at hended
          refine hended.resolve_left fun hquit => ?_
          rcases h.quit i hquit with ⟨failure, hmain⟩
          have hgone := h.gone failure hmain
          rw [hstage] at hgone
          cases hgone

theorem Inv.addTask (h : Inv s) {count : ℕ} (hmain : s.main = .adding count)
    (hcount : count < workerCount concurrency)
    (hidle : s.pool.call (.producer ()) = some .idle) :
    Inv { s with
      pool := ThreadPool.setCall s.pool (.producer ()) .called
      main := .adding (count + 1) } where
  sound := h.sound.step (.call _ hidle)
  undisturbed := by
    refine h.undisturbed.step ?_ (.call _ hidle)
    by_contra hbegun
    have hover := h.begun hbegun
    simp [hmain, Main.isOver] at hover
  drained := h.drained
  loaded := by
    have henqueued := h.loaded.enqueued
    have hproducers : s.pool.producers () = .idle := Option.some.inj hidle
    rw [hmain, hproducers] at henqueued
    refine ⟨h.loaded.workers, ?_⟩
    simpa [ThreadPool.setCall, pending, Main.count] using henqueued
  le := hcount
  idle hnot := absurd rfl (hnot _)
  begun hbegun := by
    have hover := h.begun hbegun
    simp [hmain, Main.isOver] at hover
  quit i hquit := by
    rcases h.quit i hquit with ⟨failure, hgone⟩
    cases hmain.symm.trans hgone
  finished := h.finished
  threw := h.threw
  unbuilt _ := h.unbuilt (by rw [hmain]; rfl)
  gone _ hgone := by cases hgone
  joined := h.joined

/-- What `start` has thrown and whether a callback is set do not matter. -/
theorem Inv.congr (h : Inv s) (hpool : s'.pool = s.pool) (hmain : s'.main = s.main)
    (hquit : s'.quit = s.quit) (hconnected : s'.connected = s.connected)
    (hthrew : s'.threw = s.threw) : Inv s' := by
  cases s
  cases s'
  subst hpool hmain hquit hconnected hthrew
  exact ⟨h.sound, h.undisturbed, h.drained, h.loaded, h.le, h.idle, h.begun, h.quit, h.finished,
    h.threw, h.unbuilt, h.gone, h.joined⟩

/-- The main thread goes on, and the sub reactors are still there. -/
theorem Inv.setMain (h : Inv s) {main : Main} (hidle : s.pool.producers () = .idle)
    (hcount : main.count (workerCount concurrency) = s.main.count (workerCount concurrency))
    (hover : s.main.isOver = true → main.isOver = true)
    (hunbuilt : main.isUnbuilt = true → s.main.isUnbuilt = true)
    (hold : ∀ failure, s.main ≠ .destroyed failure) (hnew : ∀ failure, main ≠ .destroyed failure) :
    Inv { s with main } where
  sound := h.sound
  undisturbed := h.undisturbed
  drained := h.drained
  loaded := by
    change Loaded (main.count (workerCount concurrency)) s.pool
    rw [hcount]
    exact h.loaded
  le := hcount.trans_le h.le
  idle _ := hidle
  begun hbegun := hover (h.begun hbegun)
  quit i hquit := by
    rcases h.quit i hquit with ⟨failure, hgone⟩
    exact absurd hgone (hold failure)
  finished := h.finished
  threw := h.threw
  unbuilt hmain := h.unbuilt (hunbuilt hmain)
  gone failure hgone := absurd hgone (hnew failure)
  joined := h.joined

theorem Inv.accept (h : Inv s) (hmain : s.main = .serving) (i : Fin (workerCount concurrency)) :
    Inv { s with connected := Function.update s.connected i true } where
  sound := h.sound
  undisturbed := h.undisturbed
  drained := h.drained
  loaded := h.loaded
  le := h.le
  idle := h.idle
  begun := h.begun
  quit := h.quit
  finished := h.finished
  threw j hthrew := by
    by_cases heq : j = i
    · simp [heq]
    · simpa [heq] using h.threw j hthrew
  unbuilt hunbuilt := by simp [hmain, Main.isUnbuilt] at hunbuilt
  gone := h.gone
  joined := h.joined

theorem Inv.callbackThrows (h : Inv s) {i : Fin (workerCount concurrency)}
    (hconnected : s.connected i = true) : Inv { s with threw := Function.update s.threw i true } where
  sound := h.sound
  undisturbed := h.undisturbed
  drained := h.drained
  loaded := h.loaded
  le := h.le
  idle := h.idle
  begun := h.begun
  quit := h.quit
  finished task htask := by
    have hends := h.finished task htask
    unfold loopEnds at hends ⊢
    split at hends
    next hlt =>
      by_cases heq : (⟨task, hlt⟩ : Fin (workerCount concurrency)) = i
      · simp [hlt, heq]
      · simpa [hlt, heq] using hends
    next => cases hends
  threw j hthrew := by
    by_cases heq : j = i
    · simpa [heq] using hconnected
    · exact h.threw j (by simpa [heq] using hthrew)
  unbuilt := h.unbuilt
  gone := h.gone
  joined hjoined j := by
    by_cases heq : j = i
    · simp [heq]
    · simpa [heq] using h.joined hjoined j

theorem Inv.destroyReactors (h : Inv s) {failure : Option Thrown}
    (hmain : s.main = .destroying failure) (hjoined : s.pool.destructor = .joined) :
    Inv { s with quit := fun _ => true, main := .destroyed failure } where
  sound := h.sound
  undisturbed := h.undisturbed
  drained := h.drained
  loaded := by
    have hloaded := h.loaded
    rw [hmain] at hloaded
    exact hloaded
  le := le_rfl
  idle _ := h.idle (by simp [hmain])
  begun _ := rfl
  quit _ _ := ⟨failure, rfl⟩
  finished task htask := by
    have hends := h.finished task htask
    unfold loopEnds at hends ⊢
    split at hends
    next hlt => simp [hlt]
    next => cases hends
  threw := h.threw
  unbuilt hunbuilt := by
    apply h.unbuilt
    rw [hmain]
    cases failure with
    | none => cases hunbuilt
    | some thrown => rfl
  gone _ _ := hjoined
  joined := h.joined

theorem Inv.step {event : Event (workerCount concurrency)} (h : Inv s)
    (hnext : next s event = some s') : Inv s' := by
  cases event with
  | pool event =>
      obtain ⟨hpermits, hpool⟩ := Option.ite_none_right_eq_some.mp hnext
      obtain ⟨pool, hstep, rfl⟩ := Option.map_eq_some_iff.mp hpool
      exact h.pool hpermits (.of_next hstep)
  | addTask =>
      simp only [next] at hnext
      split at hnext
      next count hmain =>
        obtain ⟨hcount, hpool⟩ := Option.ite_none_right_eq_some.mp hnext
        obtain ⟨pool, hstep, rfl⟩ := Option.map_eq_some_iff.mp hpool
        obtain ⟨hidle, rfl⟩ := Run.of_guard hstep
        exact h.addTask hmain hcount hidle
      next => cases hnext
  | makeAcceptor calls =>
      obtain ⟨⟨hmain, hidle⟩, hresult⟩ := Option.ite_none_right_eq_some.mp hnext
      split at hresult
      next failure hfailure =>
        obtain rfl := Option.some.inj hresult
        exact h.setMain hidle (by rw [hmain]; rfl) (fun _ => rfl) (fun _ => by rw [hmain]; rfl)
          (by simp [hmain]) nofun
      next =>
        obtain rfl := Option.some.inj hresult
        exact h.setMain hidle (by rw [hmain]; rfl) (by simp [hmain, Main.isOver]) nofun
          (by simp [hmain]) nofun
  | onHandle =>
      obtain ⟨hmain, rfl⟩ := Run.of_guard hnext
      exact h.congr rfl rfl rfl rfl rfl
  | start =>
      obtain ⟨hmain, rfl⟩ := Run.of_guard hnext
      split
      next =>
        exact h.setMain (h.idle (by simp [hmain])) (by rw [hmain]; rfl) (by simp [hmain, Main.isOver])
          nofun (by simp [hmain]) nofun
      next => exact h.congr rfl rfl rfl rfl rfl
  | accept i =>
      obtain ⟨hmain, rfl⟩ := Run.of_guard hnext
      exact h.accept hmain i
  | callbackThrows i =>
      obtain ⟨⟨hconnected, -⟩, rfl⟩ := Run.of_guard hnext
      exact h.callbackThrows hconnected
  | acceptThrows thrown =>
      obtain ⟨hmain, rfl⟩ := Run.of_guard hnext
      have hready : Inv { s with main := .ready } := by
        exact h.setMain (h.idle (by simp [hmain])) (by rw [hmain]; rfl) (by simp [hmain, Main.isOver])
          nofun (by simp [hmain]) nofun
      exact hready.congr rfl rfl rfl rfl rfl
  | destroy =>
      obtain ⟨hmain, rfl⟩ := Run.of_guard hnext
      exact h.setMain (h.idle (by simp [hmain])) (by rw [hmain]; rfl) (fun _ => rfl)
        nofun (by simp [hmain]) nofun
  | destroyReactors =>
      simp only [next] at hnext
      split at hnext
      next failure hmain =>
        obtain ⟨hjoined, rfl⟩ := Run.of_guard hnext
        exact h.destroyReactors hmain hjoined
      next => cases hnext

theorem inv_run {events : List (Event (workerCount concurrency))}
    (hrun : Run.run next (construct concurrency) events = some s) : Inv s :=
  Run.invariant' (fun _ _ _ h hnext => h.step hnext) (inv_construct concurrency) hrun

/-! ## Where the reactors loop -/

/-- The constructor has returned, and `~Server` has not begun. -/
def IsBuilt (s : State n) : Prop :=
  s.main = .ready ∨ s.main = .serving

instance (s : State n) : Decidable (IsBuilt s) :=
  inferInstanceAs (Decidable (s.main = .ready ∨ s.main = .serving))

theorem Inv.length_enqueued (h : Inv s) (hbuilt : IsBuilt s) :
    s.pool.enqueued.length = workerCount concurrency := by
  have hlength := h.loaded.enqueued
  rcases hbuilt with hmain | hmain
  · rw [hmain, h.idle (by simp [hmain])] at hlength
    exact hlength
  · rw [hmain, h.idle (by simp [hmain])] at hlength
    exact hlength

theorem Inv.not_exited (h : Inv s) (hbuilt : IsBuilt s) (w : Fin (workerCount concurrency)) :
    s.pool.workers w ≠ .exited := by
  intro hexited
  have hstop := h.undisturbed.exited w hexited
  by_cases hbegun : s.pool.destructor = .notBegun
  · rw [h.undisturbed.running hbegun] at hstop
    cases hstop
  · have hover := h.begun hbegun
    rcases hbuilt with hmain | hmain
    · simp [hmain, Main.isOver] at hover
    · simp [hmain, Main.isOver] at hover

/-- There are enough workers for the loops. -/
theorem Inv.tasks_eq (h : Inv s) (hbuilt : IsBuilt s) (hrest : AtRest s.pool) :
    s.pool.tasks = [] := by
  by_contra htasks
  have hbusy : ∀ w, (((ThreadPool.work s.pool).job w).task).isSome := by
    intro w
    have hrunning := (hrest.busy h.sound htasks w).resolve_right (h.not_exited hbuilt w)
    change ((s.pool.workers w).job.task).isSome
    cases hworker : s.pool.workers w with
    | running task call => rfl
    | _ => simp [hworker, ThreadPool.Worker.isRunning] at hrunning
  have hcard := h.sound.work.card_le hbusy
  have horder : s.pool.enqueued = s.pool.dequeued ++ s.pool.tasks := h.sound.work.order
  have hlength := congrArg List.length horder
  rw [h.length_enqueued hbuilt, List.length_append] at hlength
  have hpos := List.length_pos_of_ne_nil htasks
  rw [Fintype.card_fin] at hcard
  change workerCount concurrency ≤ s.pool.dequeued.length at hcard
  omega

/-- A loop that has not been left is with a worker, which is in it when the pool is at rest. -/
theorem Inv.loops (h : Inv s) (hbuilt : IsBuilt s) (hrest : AtRest s.pool)
    {i : Fin (workerCount concurrency)} (hthrew : s.threw i = false) : ∃ w, loops s i w := by
  have hdequeued : (i : ℕ) ∈ s.pool.dequeued := by
    have horder : s.pool.enqueued = s.pool.dequeued ++ s.pool.tasks := h.sound.work.order
    have hnumbers : s.pool.enqueued = List.range s.pool.enqueued.length := h.sound.work.numbers
    rw [h.tasks_eq hbuilt hrest, List.append_nil] at horder
    rw [← horder, hnumbers, h.length_enqueued hbuilt]
    exact List.mem_range.mpr i.isLt
  rcases h.sound.work.ran i hdequeued with hfinished | ⟨w, hheld⟩
  · have hends := h.finished i hfinished
    rw [loopEnds_eq, hthrew, Bool.or_false] at hends
    rcases h.quit i hends with ⟨failure, hgone⟩
    rcases hbuilt with hmain | hmain
    · cases hmain.symm.trans hgone
    · cases hmain.symm.trans hgone
  · refine ⟨w, ?_⟩
    change (s.pool.workers w).job.task = some (i : ℕ) at hheld
    cases hworker : s.pool.workers w with
    | running task call =>
        rw [hworker] at hheld
        obtain rfl := Option.some.inj hheld
        obtain rfl := h.loaded.workers w _ _ hworker
        exact hworker
    | taken task =>
        have hatRest := hrest.workers h.sound.locked w
        simp [hworker, ThreadPool.Worker.isRunning] at hatRest
    | _ => simp [hworker, ThreadPool.Worker.job, WorkQueue.Job.task] at hheld

/-- When a server is built and its pool has come to rest, no loop waits for a worker: each one that
a callback has not thrown out of runs in a worker of its own. -/
theorem reactors_loop {events : List (Event (workerCount concurrency))}
    (hrun : Run.run next (construct concurrency) events = some s) (hbuilt : IsBuilt s)
    (hrest : AtRest s.pool) : ∀ i, s.threw i = false → ∃! w, loops s i w := by
  intro i hthrew
  have h := inv_run hrun
  rcases h.loops hbuilt hrest hthrew with ⟨w, hw⟩
  refine ⟨w, hw, fun w' hw' => ?_⟩
  apply h.sound.work.distinct w' w i
  · change (s.pool.workers w').job.task = some (i : ℕ)
    rw [hw']
    rfl
  · change (s.pool.workers w).job.task = some (i : ℕ)
    rw [hw]
    rfl

open ThreadPool (first second)

/-- The main thread adds the loop of a sub reactor. -/
def adding : List (Event (workerCount 2)) :=
  [.addTask, .pool (.checkStop (.producer ())), .pool (.enqueue (.producer ())),
    .pool (.notifyOne (.producer ()) none)]

/-- Worker `w` goes into the loop of a sub reactor. -/
def looping (w : Fin (workerCount 2)) : List (Event (workerCount 2)) :=
  [.pool (.lock w), .pool (.check w), .pool (.take w), .pool (.start w)]

def built : List (Event (workerCount 2)) :=
  adding ++ adding ++ looping second ++ looping first ++ [.makeAcceptor ⟨3, 0, 0, 0, 0⟩]

theorem workers_built : ∀ hsome w, ((Run.run next (construct 2) built).get hsome).pool.workers w =
    .running (if w = first then 1 else 0) .idle := by
  decide

theorem atRest_built (hsome : (Run.run next (construct 2) built).isSome) :
    AtRest ((Run.run next (construct 2) built).get hsome).pool := by
  apply ThreadPool.atRest_of_workers
  · intro w
    rw [workers_built]
    exact Or.inr (Or.inl rfl)
  · intro caller task
    cases caller with
    | producer p =>
        have hidle : ((Run.run next (construct 2) built).get hsome).pool.producers p = .idle := by
          rfl
        simp [ThreadPool.State.call, hidle]
    | worker w => simp [ThreadPool.State.call, workers_built, ThreadPool.Worker.call]

theorem reactors_loop_built : ∃ s, Run.run next (construct 2) built = some s ∧
    ∃! w, loops s second w := by
  have hsome : (Run.run next (construct 2) built).isSome := by decide
  exact ⟨_, (Option.some_get hsome).symm,
    reactors_loop (Option.some_get hsome).symm (Or.inl (by rfl)) (atRest_built hsome) second (by rfl)⟩

/-! ## Destroying a server -/

/-- `~ThreadPool` does not join the workers as long as a sub reactor loops. The sub reactors are told
to quit only after that, so `~Server` returns only when callbacks have thrown in all of
them, and what the constructor throws does not get out. -/
theorem destroyed_only {events : List (Event (workerCount concurrency))}
    (hrun : Run.run next (construct concurrency) events = some s) :
    (∀ i, s.threw i = false → next s (.pool .join) = none) ∧
      ∀ failure, s.main = .destroyed failure → failure = none ∧ ∀ i, s.threw i = true := by
  have h := inv_run hrun
  constructor
  · intro i hthrew
    by_contra hjoin
    obtain ⟨s', hnext⟩ := Option.ne_none_iff_exists'.mp hjoin
    have hstep := h.step hnext
    have hpool : (ThreadPool.next s.pool .join).map (fun pool => { s with pool }) = some s' := hnext
    obtain ⟨pool, hjoined, rfl⟩ := Option.map_eq_some_iff.mp hpool
    obtain ⟨-, rfl⟩ := Run.of_guard hjoined
    rw [hstep.joined rfl i] at hthrew
    cases hthrew
  · intro failure hmain
    have hthrew := h.joined (h.gone failure hmain)
    refine ⟨?_, hthrew⟩
    cases failure with
    | none => rfl
    | some thrown =>
        have hpos := ThreadPool.workerCount_pos concurrency
        have hconnected := h.threw ⟨0, hpos⟩ (hthrew _)
        rw [h.unbuilt (by rw [hmain]; rfl)] at hconnected
        cases hconnected

/-- The constructor of `Acceptor` fails, for instance as the port is in use. -/
def unbindable : List (Event (workerCount 2)) :=
  adding ++ adding ++ looping first ++ looping second ++
    [.makeAcceptor ⟨3, 0, 0, -1, 0⟩, .pool .begin, .pool .store, .pool .notifyAll]

theorem destroyed_only_unbindable : ∃ s, Run.run next (construct 2) unbindable = some s ∧
    s.main = .destroying (some (.exception ⟨.socketError, ascii "Bind socket error"⟩)) ∧
    next s (.pool .join) = none := by
  have hsome : (Run.run next (construct 2) unbindable).isSome := by decide
  exact ⟨_, (Option.some_get hsome).symm, by rfl,
    (destroyed_only (Option.some_get hsome).symm).1 first (by rfl)⟩

end FalconLink.Server
