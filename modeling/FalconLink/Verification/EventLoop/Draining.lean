import FalconLink.Model.Echo
import FalconLink.Verification.EventLoop.Invariant

/-! # Every byte is read, and in time

When the loop waits in `epoll_wait`, its callbacks have read all that has arrived. No connection
waits for longer than the number of connections before it on the ready list asks for.
-/

namespace FalconLink.EventLoop

open Readiness

variable {C σ : Type} [DecidableEq C] {pollSize : ℕ} {callback : Callback C σ} {s s' t : State C σ}
  {event : Event C} {conn : C}

/-! ## Nothing is left behind -/

omit [DecidableEq C] in
theorem waits_iff (hsize : 0 < pollSize) : Waits pollSize s ↔
    s.phase = .between ∧ s.readyConns = [] ∧ ∀ conn ∈ s.ready, isReadable s conn = false := by
  rw [Waits]
  split
  · rename_i hphase hbatch
    rw [← harvest_eq_nil_iff hsize, poll]
    simp [hphase, hbatch]
  · rename_i hnot
    constructor
    · exact False.elim
    · rintro ⟨hphase, hbatch, -⟩
      exact hnot hphase hbatch

theorem Socket.eq_empty {socket : Socket} (h : socket.isReadable = false) : socket = .empty := by
  obtain ⟨inbox, ending⟩ := socket
  simp only [isReadable, Bool.or_eq_false_iff] at h
  cases inbox <;> cases ending <;> simp_all [empty]

/-- When the loop waits, a connection has been read to the end of what has arrived. -/
theorem Inv.drained (h : Inv s) (hsize : 0 < pollSize) (hwaits : Waits pollSize s)
    (hadded : s.status conn = .added) : s.sockets conn = .empty ∧
      (s.calls conn).flatMap received = s.arrived conn := by
  obtain ⟨hphase, hbatch, hready⟩ := (waits_iff hsize).mp hwaits
  have hdry : isReadable s conn = false := by
    cases hreadable : isReadable s conn with
    | false => rfl
    | true =>
        rcases h.covered conn hadded hreadable with hmem | hmem | ⟨_, heq⟩ | ⟨_, heq, -⟩
        · rw [← hreadable]
          exact hready conn hmem
        · rw [hbatch] at hmem
          cases hmem
        · rw [hphase] at heq
          cases heq
        · rw [hphase] at heq
          cases heq
  have hempty := Socket.eq_empty hdry
  refine ⟨hempty, ?_⟩
  rw [h.conserved conn, hempty, reading, hphase]
  simp [Phase.running, Socket.empty]

/-- A connection with something to read is known to the loop. When the loop waits, each of its
connections has been read to the end of what has arrived, by callbacks that have all gone on. -/
theorem drained_when_waiting (hsize : 0 < pollSize) {user : σ} {events : List (Event C)}
    (hrun : Run.run (next pollSize callback) (initial C user) events = some s) :
    (∀ conn, s.status conn = .added → isReadable s conn = true → Covered s conn) ∧
      (∀ conn, (s.calls conn).flatMap received <+: s.arrived conn) ∧
      (Waits pollSize s → ∀ conn, s.status conn = .added → s.sockets conn = .empty ∧
        (s.calls conn).flatMap received = s.arrived conn ∧
        ∀ results ∈ s.calls conn, ending results = some false) := by
  have hinv := inv_run hrun
  refine ⟨hinv.covered, fun conn => ?_, fun hwaits conn hadded => ?_⟩
  · rw [hinv.conserved conn]
    exact List.prefix_append _ _
  · obtain ⟨hempty, hall⟩ := hinv.drained hsize hwaits hadded
    exact ⟨hempty, hall, hinv.returned conn (by rw [hadded]; decide)⟩

/-- Bytes arrive before the connection is added and while its callback reads. -/
def arrivals : List (Event Bool) :=
  [.arrive true (ascii "ab"), .addConnection true, .poll, .invoke,
    .recv (.chunk ⟨ascii "a", by decide, by decide⟩), .arrive true (ascii "c"),
    .recv (.chunk ⟨ascii "bc", by decide, by decide⟩), .recv .again, .handle [.accepted 2]]

theorem drained_when_waiting_arrivals :
    ∃ s, Run.run (next 1 (Echo.callback Bool)) (initial Bool (.initial Bool)) arrivals = some s ∧
      (s.calls true).flatMap received = ascii "abc" :=
  have hrun := rfl
  ⟨_, hrun, ((@drained_when_waiting Bool _ _ 1 (Echo.callback Bool) _ (by decide) (.initial Bool)
    arrivals hrun).2.2 rfl true rfl).2.1⟩

/-! ## Nobody starves -/

/-- The event starts the callback of the connection. -/
def Invokes (conn : C) (s : State C σ) : Event C → Prop
  | .invoke => s.readyConns.head? = some conn
  | _ => False

instance (conn : C) (s : State C σ) : (event : Event C) → Decidable (Invokes conn s event)
  | .invoke => inferInstanceAs (Decidable (s.readyConns.head? = some conn))
  | .arrive _ _ => isFalse id
  | .finish _ _ => isFalse id
  | .addConnection _ => isFalse id
  | .poll => isFalse id
  | .recv _ => isFalse id
  | .handle _ => isFalse id

def isPoll : Event C → Bool
  | .poll => true
  | _ => false

/-- The connection is ready and in nobody's hands, with at most `n` others before it. -/
structure Listed (s : State C σ) (conn : C) (n : ℕ) : Prop where
  added : s.status conn = .added
  readable : isReadable s conn = true
  idle : ∀ results, s.phase.running ≠ some (conn, results)
  notBatched : conn ∉ s.readyConns
  mem : conn ∈ s.ready
  index : s.ready.idxOf conn ≤ n

theorem idxOf_notify_le (hmem : conn ∈ s.ready) (other : C) :
    (notify s other).ready.idxOf conn ≤ s.ready.idxOf conn := by
  rw [notify]
  split
  · exact (idxOf_signal hmem other).le
  · exact le_rfl

/-- What comes to a socket does not change the place of a connection that is listed. -/
theorem Listed.touch {n : ℕ} (h : Listed s conn n) (other : C) (socket : Socket)
    (arrived : C → Bytes) (hreadable : other = conn → socket.isReadable = true) :
    Listed (notify { setSocket s other socket with arrived } other) conn n where
  added := by simpa [setSocket] using h.added
  readable := by
    simp only [isReadable, notify_sockets, setSocket]
    by_cases heq : other = conn
    · rw [heq, Function.update_self]
      exact hreadable heq
    · rw [Function.update_of_ne (Ne.symm heq)]
      exact h.readable
  idle := by simpa [setSocket] using h.idle
  notBatched := by simpa [setSocket] using h.notBatched
  mem := mem_notify_ready.mpr (.inl h.mem)
  index := le_trans (idxOf_notify_le (by exact h.mem) other) h.index

/-- A step other than a `poll` leaves a listed connection where it is, or moves it up. -/
theorem Listed.step {n : ℕ} (h : Listed s conn n)
    (hstep : Step pollSize callback s event s') (hnot : isPoll event = false) :
    Listed s' conn n := by
  cases hstep with
  | @arrive other bytes hopen =>
      refine h.touch other _ _ fun heq => ?_
      have hreadable := h.readable
      simp only [isReadable, Socket.isReadable, Bool.or_eq_true, Bool.not_eq_true',
        List.isEmpty_eq_false_iff] at hreadable ⊢
      rw [heq]
      exact hreadable.imp_left fun hinbox => by simp [hinbox]
  | @finish other ending hopen =>
      refine h.touch other _ s.arrived fun _ => ?_
      simp [Socket.isReadable]
  | @addConnection other hstatus =>
      have hne : conn ≠ other := by
        rintro rfl
        rw [h.added] at hstatus
        cases hstatus
      simp only [addConnection]
      split
      · refine ⟨?_, ?_, ?_, ?_, mem_notify_ready.mpr (.inl h.mem),
          le_trans (idxOf_notify_le (by exact h.mem) other) h.index⟩
        · simpa [Function.update_of_ne hne] using h.added
        · simpa [isReadable] using h.readable
        · simpa using h.idle
        · simpa using h.notBatched
      · exact { h with added := (Function.update_of_ne hne ..).trans h.added }
  | poll => cases hnot
  | @invoke other readyConns hphase hbatch =>
      have hmiss := h.notBatched
      rw [hbatch, List.mem_cons, not_or] at hmiss
      refine { h with idle := ?_, notBatched := hmiss.2 }
      rintro results heq
      exact hmiss.1 (Prod.mk.inj (Option.some.inj heq)).1.symm
  | @recvOn other results result socket hphase hrecv hgoesOn =>
      have hne : conn ≠ other := by
        rintro rfl
        exact h.idle results (by rw [hphase]; rfl)
      refine { h with readable := ?_, idle := ?_ }
      · simpa [isReadable, setSocket, Function.update_of_ne hne] using h.readable
      · intro results' heq
        exact hne (Prod.mk.inj (Option.some.inj heq)).1.symm
  | @recvLast other results result socket hphase hrecv hgoesOn =>
      have hne : conn ≠ other := by
        rintro rfl
        exact h.idle results (by rw [hphase]; rfl)
      refine { h with readable := ?_, idle := ?_ }
      · simpa [isReadable, setSocket, Function.update_of_ne hne] using h.readable
      · intro results' heq
        exact hne (Prod.mk.inj (Option.some.inj heq)).1.symm
  | keep hphase hrun =>
      refine { h with idle := ?_ }
      intro results heq
      cases heq
  | @delete other results sends user hphase hrun =>
      have hne : conn ≠ other := by
        rintro rfl
        exact h.idle results (by rw [hphase]; rfl)
      refine { h with added := ?_, idle := ?_, mem := ?_, index := ?_ }
      · simpa [deleteConnection, afterCallback, Function.update_of_ne hne] using h.added
      · intro results' heq
        cases heq
      · exact (List.mem_erase_of_ne hne).mpr h.mem
      · exact le_trans (idxOf_erase_le (Ne.symm hne)) h.index

/-- A `poll` takes a listed connection, or as many others as it can. -/
theorem Listed.poll {n : ℕ} (h : Listed s conn n)
    (hstep : Step pollSize callback s .poll s') :
    conn ∈ s'.readyConns ∨ pollSize ≤ n ∧ Listed s' conn (n - pollSize) := by
  cases hstep with
  | poll hphase hbatch hsome =>
      by_cases htaken : conn ∈ (harvest (isReadable s) pollSize s.ready).1
      · exact .inl htaken
      · have hle := idxOf_rest_le h.mem h.readable htaken
        have hindex := h.index
        refine .inr ⟨by omega, { h with notBatched := htaken, mem := ?_, index := ?_ }⟩
        · exact (mem_harvest_or_mem_rest pollSize h.mem h.readable).resolve_left htaken
        · change (harvest (isReadable s) pollSize s.ready).2.idxOf conn ≤ n - pollSize
          omega

/-- While a connection is in the batch there is no other `poll`. -/
theorem batched_step (hmem : conn ∈ s.readyConns) (hstep : Step pollSize callback s event s')
    (hnot : ¬Invokes conn s event) : isPoll event = false ∧ conn ∈ s'.readyConns := by
  cases hstep with
  | poll hphase hbatch =>
      rw [hbatch] at hmem
      cases hmem
  | @invoke other readyConns hphase hbatch =>
      rw [Invokes, hbatch, List.head?_cons, Option.some.injEq] at hnot
      rw [hbatch, List.mem_cons] at hmem
      exact ⟨rfl, hmem.resolve_left fun heq => hnot heq.symm⟩
  | arrive => exact ⟨rfl, by simpa [setSocket] using hmem⟩
  | finish => exact ⟨rfl, by simpa [setSocket] using hmem⟩
  | addConnection =>
      refine ⟨rfl, ?_⟩
      simp only [addConnection]
      split <;> simpa using hmem
  | recvOn | recvLast | keep | delete => exact ⟨rfl, hmem⟩

theorem polls_batched {events : List (Event C)} (hmem : conn ∈ s.readyConns)
    (hrun : Run.run (next pollSize callback) s events = some t)
    (hnot : Run.Along (next pollSize callback) (fun s event => ¬Invokes conn s event) s events) :
    events.countP isPoll = 0 := by
  induction events generalizing s with
  | nil => rfl
  | cons event events ih =>
      obtain ⟨u, hnext, hrun⟩ := Run.exists_of_run_cons hrun
      rw [Run.along_cons events hnext] at hnot
      obtain ⟨hpoll, hmem⟩ := batched_step hmem (.of_next hnext) hnot.1
      rw [List.countP_cons, ih hmem hrun hnot.2, hpoll]
      rfl

theorem polls_listed (hsize : 0 < pollSize) {events : List (Event C)} :
    ∀ {s : State C σ} {n : ℕ}, Listed s conn n →
      Run.run (next pollSize callback) s events = some t →
      Run.Along (next pollSize callback) (fun s event => ¬Invokes conn s event) s events →
      events.countP isPoll ≤ n / pollSize + 1 := by
  induction events with
  | nil => exact fun _ _ _ => Nat.zero_le _
  | cons event events ih =>
      intro s n hlisted hrun hnot
      obtain ⟨u, hnext, hlater⟩ := Run.exists_of_run_cons hrun
      rw [Run.along_cons events hnext] at hnot
      have hstep := Step.of_next hnext
      cases hpoll : isPoll event with
      | false =>
          have hrest := ih (hlisted.step hstep hpoll) hlater hnot.2
          simpa [List.countP_cons, hpoll] using hrest
      | true =>
          obtain rfl : event = .poll := by cases event <;> first | rfl | cases hpoll
          rw [List.countP_cons, if_pos hpoll]
          rcases hlisted.poll hstep with hmem | ⟨hle, hlisted'⟩
          · rw [polls_batched hmem hlater hnot.2]
            exact Nat.le_add_left 1 _
          · have hrest := ih hlisted' hlater hnot.2
            rw [Nat.div_eq_sub_div hsize hle]
            exact Nat.succ_le_succ hrest

/-- A connection that has something to read is invoked before the loop has polled more often than
the connections before it on the ready list fill batches, whatever happens to the others. -/
theorem polls_before_invoke (hsize : 0 < pollSize) {user : σ} {before after : List (Event C)}
    (hbefore : Run.run (next pollSize callback) (initial C user) before = some s)
    (hadded : s.status conn = .added) (hreadable : isReadable s conn = true)
    (hidle : ∀ results, s.phase.running ≠ some (conn, results))
    (hafter : Run.run (next pollSize callback) s after = some t)
    (hnot : Run.Along (next pollSize callback) (fun s event => ¬Invokes conn s event) s after) :
    after.countP isPoll ≤ s.ready.idxOf conn / pollSize + 1 := by
  have hinv := inv_run hbefore
  by_cases hbatch : conn ∈ s.readyConns
  · rw [polls_batched hbatch hafter hnot]
    exact Nat.zero_le _
  · have hmem : conn ∈ s.ready := by
      rcases hinv.covered conn hadded hreadable with hmem | hmem | ⟨results, heq⟩ | ⟨results, heq, -⟩
      · exact hmem
      · exact absurd hmem hbatch
      · exact absurd (by rw [heq]; rfl) (hidle results)
      · exact absurd (by rw [heq]; rfl) (hidle results)
    exact polls_listed hsize ⟨hadded, hreadable, hidle, hbatch, hmem, le_rfl⟩ hafter hnot

/-- Bytes arrive on one connection and then on the other. -/
def bothArrive : List (Event Bool) :=
  [.addConnection true, .addConnection false, .arrive false (ascii "x"), .arrive true (ascii "y")]

/-- With room for one event, the second connection is polled after the first one is served. -/
def otherFirst : List (Event Bool) :=
  [.poll, .invoke, .recv (.chunk ⟨ascii "x", by decide, by decide⟩), .recv .again,
    .handle [.accepted 1], .arrive false (ascii "z"), .poll]

theorem polls_before_invoke_otherFirst :
    ∃ s, Run.run (next 1 (Echo.callback Bool)) (initial Bool (.initial Bool)) bothArrive = some s ∧
      otherFirst.countP isPoll ≤ s.ready.idxOf true / 1 + 1 :=
  have hrun := rfl
  have hlater := rfl
  ⟨_, hrun, @polls_before_invoke Bool _ _ 1 (Echo.callback Bool) _ _ true (by decide)
    (.initial Bool) bothArrive otherFirst hrun rfl rfl nofun hlater (by decide)⟩

end FalconLink.EventLoop
