import FalconLink.Model.EventLoop
import FalconLink.Verification.Connection

/-! # What a reactor knows of its connections

A connection with something to read is known to its loop: it is on the ready list or in the batch,
or its callback has not come to the end of what there is.
-/

namespace FalconLink.EventLoop

open Readiness

variable {C σ : Type} [DecidableEq C] {pollSize : ℕ} {callback : Callback C σ} {s s' : State C σ}
  {event : Event C} {conn other : C}

/-! ## Steps -/

/-- What the events can do. -/
inductive Step (pollSize : ℕ) (callback : Callback C σ) (s : State C σ) :
    Event C → State C σ → Prop where
  | arrive {conn : C} {bytes : Bytes} (hopen : (s.sockets conn).ending = none)
      (hlive : s.status conn ≠ .deleted) :
      Step pollSize callback s (.arrive conn bytes)
        (notify { setSocket s conn
          { s.sockets conn with inbox := (s.sockets conn).inbox ++ bytes } with
          arrived := Function.update s.arrived conn (s.arrived conn ++ bytes) } conn)
  | finish {conn : C} {ending : Ending} (hopen : (s.sockets conn).ending = none)
      (hlive : s.status conn ≠ .deleted) :
      Step pollSize callback s (.finish conn ending)
        (notify (setSocket s conn { s.sockets conn with ending := some ending }) conn)
  | addConnection {conn : C} (hstatus : s.status conn = .accepted) :
      Step pollSize callback s (.addConnection conn) (addConnection s conn)
  | poll (hphase : s.phase = .between) (hbatch : s.readyConns = [])
      (hsome : (harvest (isReadable s) pollSize s.ready).1 ≠ []) :
      Step pollSize callback s .poll { s with
        ready := (harvest (isReadable s) pollSize s.ready).2
        readyConns := (harvest (isReadable s) pollSize s.ready).1 }
  | invoke {conn : C} {readyConns : List C} (hphase : s.phase = .between)
      (hbatch : s.readyConns = conn :: readyConns) :
      Step pollSize callback s .invoke { s with readyConns, phase := .receiving conn [] }
  | recvOn {conn : C} {results : List RecvResult} {result : RecvResult} {socket : Socket}
      (hphase : s.phase = .receiving conn results)
      (hrecv : (s.sockets conn).recv result = some socket) (hgoesOn : goesOn result = true) :
      Step pollSize callback s (.recv result)
        { setSocket s conn socket with phase := .receiving conn (results ++ [result]) }
  | recvLast {conn : C} {results : List RecvResult} {result : RecvResult} {socket : Socket}
      (hphase : s.phase = .receiving conn results)
      (hrecv : (s.sockets conn).recv result = some socket) (hgoesOn : goesOn result = false) :
      Step pollSize callback s (.recv result)
        { setSocket s conn socket with phase := .handling conn (results ++ [result]) }
  | keep {conn : C} {results : List RecvResult} {sends : List SendResult} {user : σ}
      (hphase : s.phase = .handling conn results)
      (hrun : callback.run conn results sends s.user = some (user, false)) :
      Step pollSize callback s (.handle sends) (afterCallback s conn results user)
  | delete {conn : C} {results : List RecvResult} {sends : List SendResult} {user : σ}
      (hphase : s.phase = .handling conn results)
      (hrun : callback.run conn results sends s.user = some (user, true)) :
      Step pollSize callback s (.handle sends)
        (deleteConnection (afterCallback s conn results user) conn)

theorem Step.of_next (h : next pollSize callback s event = some s') :
    Step pollSize callback s event s' := by
  cases event with
  | arrive conn bytes =>
      obtain ⟨⟨hopen, hlive⟩, rfl⟩ := Run.of_guard h
      exact .arrive hopen hlive
  | finish conn ending =>
      obtain ⟨⟨hopen, hlive⟩, rfl⟩ := Run.of_guard h
      exact .finish hopen hlive
  | addConnection conn =>
      obtain ⟨hstatus, rfl⟩ := Run.of_guard h
      exact .addConnection hstatus
  | poll =>
      rw [next] at h
      split at h
      · rename_i hphase hbatch
        obtain ⟨hsome, rfl⟩ := Run.of_guard h
        exact .poll hphase hbatch hsome
      · cases h
  | invoke =>
      rw [next] at h
      split at h
      · rename_i conn readyConns hphase hbatch
        obtain rfl := Option.some.inj h
        exact .invoke hphase hbatch
      · cases h
  | recv result =>
      rw [next] at h
      split at h
      · rename_i conn results hphase
        obtain ⟨socket, hrecv, rfl⟩ := Option.map_eq_some_iff.mp h
        cases hgoesOn : goesOn result with
        | true => exact .recvOn hphase hrecv hgoesOn
        | false => exact .recvLast hphase hrecv hgoesOn
      · cases h
  | handle sends =>
      rw [next] at h
      split at h
      · rename_i conn results hphase
        obtain ⟨⟨user, deleted⟩, hrun, rfl⟩ := Option.map_eq_some_iff.mp h
        cases deleted with
        | true => exact .delete hphase hrun
        | false => exact .keep hphase hrun
      · cases h

/-! ## Notifications -/

section

@[simp] theorem notify_sockets : (notify s conn).sockets = s.sockets := by
  rw [notify]
  split <;> rfl

@[simp] theorem notify_status : (notify s conn).status = s.status := by
  rw [notify]
  split <;> rfl

@[simp] theorem notify_readyConns : (notify s conn).readyConns = s.readyConns := by
  rw [notify]
  split <;> rfl

@[simp] theorem notify_phase : (notify s conn).phase = s.phase := by
  rw [notify]
  split <;> rfl

@[simp] theorem notify_arrived : (notify s conn).arrived = s.arrived := by
  rw [notify]
  split <;> rfl

@[simp] theorem notify_calls : (notify s conn).calls = s.calls := by
  rw [notify]
  split <;> rfl

@[simp] theorem notify_user : (notify s conn).user = s.user := by
  rw [notify]
  split <;> rfl

theorem mem_notify_ready :
    other ∈ (notify s conn).ready ↔ other ∈ s.ready ∨ (other = conn ∧ s.status conn = .added) := by
  rw [notify]
  split <;> simp [*]

theorem nodup_notify_ready (h : s.ready.Nodup) (conn : C) : (notify s conn).ready.Nodup := by
  rw [notify]
  split
  · exact nodup_signal h conn
  · exact h

end

/-- What has arrived stays recorded. -/
theorem Step.arrived_grows (h : Step pollSize callback s event s') (other : C) :
    s.arrived other <+: s'.arrived other := by
  cases h with
  | @arrive conn bytes =>
      rw [notify_arrived]
      change _ <+: Function.update s.arrived conn (s.arrived conn ++ bytes) other
      by_cases heq : other = conn
      · rw [heq, Function.update_self]
        exact List.prefix_append _ _
      · rw [Function.update_of_ne heq]
  | finish => simp [setSocket]
  | addConnection =>
      simp only [EventLoop.addConnection]
      split <;> simp
  | poll | invoke | recvOn | recvLast | keep | delete => exact List.prefix_rfl

/-! ## Callbacks that have returned -/

/-- A callback returns in the step, and the connection is deleted or not. -/
structure Returned (callback : Callback C σ) (s s' : State C σ) (conn : C)
    (results : List RecvResult) (sends : List SendResult) (deleted : Bool) : Prop where
  phase : s.phase = .handling conn results
  run : callback.run conn results sends s.user = some (s'.user, deleted)
  calls : s'.calls = Function.update s.calls conn (s.calls conn ++ [results])
  status : s'.status = if deleted then Function.update s.status conn .deleted else s.status

/-- A callback returns, or what callbacks change stays. -/
theorem Step.returned_or (h : Step pollSize callback s event s') :
    (∃ conn results sends deleted, event = .handle sends ∧
      Returned callback s s' conn results sends deleted) ∨
      s'.user = s.user ∧ s'.calls = s.calls ∧
        ∀ conn, s'.status conn = .deleted ↔ s.status conn = .deleted := by
  cases h with
  | arrive | finish => exact .inr (by simp [setSocket])
  | @addConnection conn hstatus =>
      refine .inr ?_
      simp only [EventLoop.addConnection]
      refine ⟨by split <;> simp, by split <;> simp, fun other => ?_⟩
      by_cases heq : other = conn
      · subst heq
        split <;> simp [hstatus]
      · split <;> simp [Function.update_of_ne heq]
  | poll | invoke | recvOn | recvLast => exact .inr ⟨rfl, rfl, fun _ => Iff.rfl⟩
  | @keep conn results sends user hphase hrun =>
      exact .inl ⟨conn, results, sends, false, rfl, hphase, hrun, rfl, rfl⟩
  | @delete conn results sends user hphase hrun =>
      exact .inl ⟨conn, results, sends, true, rfl, hphase, hrun, rfl, rfl⟩

theorem mem_calls {results results' : List RecvResult} {user : σ}
    (h : results' ∈ (afterCallback s conn results user).calls other) :
    results' ∈ s.calls other ∨ other = conn ∧ results' = results := by
  simp only [afterCallback] at h
  by_cases heq : other = conn
  · subst heq
    rw [Function.update_self, List.mem_append, List.mem_singleton] at h
    exact h.imp_right fun hlast => ⟨rfl, hlast⟩
  · rw [Function.update_of_ne heq] at h
    exact .inl h

/-! ## Results of a `recv` -/

theorem received_append {results : List RecvResult} (h : ∀ result ∈ results, goesOn result = true)
    (last : RecvResult) : received (results ++ [last]) = received results ++ last.bytes := by
  induction results with
  | nil => cases last <;> simp [received, RecvResult.bytes]
  | cons result results ih =>
      obtain ⟨hresult, hrest⟩ := List.forall_mem_cons.mp h
      cases result with
      | chunk data => simp [received, ih hrest]
      | interrupted => simp [received, ih hrest]
      | again => cases hresult
      | closed => cases hresult
      | failed => cases hresult

theorem ending_append {results : List RecvResult} (h : ∀ result ∈ results, goesOn result = true)
    (last : RecvResult) : ending (results ++ [last]) = ending [last] := by
  induction results with
  | nil => rfl
  | cons result results ih =>
      obtain ⟨hresult, hrest⟩ := List.forall_mem_cons.mp h
      cases result with
      | chunk data => exact ih hrest
      | interrupted => exact ih hrest
      | again => cases hresult
      | closed => cases hresult
      | failed => cases hresult

/-- What a call of `::recv` takes from the socket is what it gives to the callback. -/
theorem recv_inbox {socket socket' : Socket} {result : RecvResult}
    (h : socket.recv result = some socket') : socket.inbox = result.bytes ++ socket'.inbox := by
  cases result with
  | chunk data =>
      obtain ⟨hfront, rfl⟩ := Run.of_guard h
      exact (List.prefix_iff_eq_append.mp hfront).symm
  | interrupted => exact congrArg Socket.inbox (Option.some.inj h)
  | again => exact congrArg Socket.inbox (Run.of_guard h).2.symm
  | closed => exact congrArg Socket.inbox (Run.of_guard h).2.symm
  | failed => exact congrArg Socket.inbox (Run.of_guard h).2.symm

/-- After the last result of a `recv` there is nothing to read, or the `recv` reports an exit. -/
theorem recv_last {socket socket' : Socket} {result : RecvResult}
    (h : socket.recv result = some socket') (hlast : goesOn result = false) :
    socket'.isReadable = false ∧ ending [result] = some false ∨ ending [result] = some true := by
  cases result with
  | chunk data => cases hlast
  | interrupted => cases hlast
  | again =>
      obtain ⟨⟨hinbox, hending⟩, rfl⟩ := Run.of_guard h
      exact .inl ⟨by simp [Socket.isReadable, hinbox, hending], rfl⟩
  | closed => exact .inr rfl
  | failed => exact .inr rfl

/-! ## The invariant -/

/-- The callback of the connection that is running, with the results of its `::recv`. -/
def Phase.running : Phase C → Option (C × List RecvResult)
  | .between => none
  | .receiving conn results => some (conn, results)
  | .handling conn results => some (conn, results)

/-- When the event ends a callback of the connection, no `::send` of it has failed for good. -/
def Sends (conn : C) (s : State C σ) : Event C → Prop
  | .handle sends => s.phase.running.map Prod.fst = some conn → .failed ∉ sends
  | _ => True

instance (conn : C) (s : State C σ) : (event : Event C) → Decidable (Sends conn s event)
  | .handle sends => inferInstanceAs
      (Decidable (s.phase.running.map Prod.fst = some conn → .failed ∉ sends))
  | .arrive _ _ => isTrue trivial
  | .finish _ _ => isTrue trivial
  | .addConnection _ => isTrue trivial
  | .poll => isTrue trivial
  | .invoke => isTrue trivial
  | .recv _ => isTrue trivial

theorem Returned.sends {results : List RecvResult} {sends : List SendResult} {deleted : Bool}
    (h : Returned callback s s' conn results sends deleted)
    (hsends : Sends conn s (.handle sends)) : .failed ∉ sends :=
  hsends (by rw [h.phase]; rfl)

/-- The callback of one connection leaves the other ones as they are. -/
theorem Returned.frame {results : List RecvResult} {sends : List SendResult} {deleted : Bool}
    (h : Returned callback s s' conn results sends deleted) (hne : other ≠ conn) :
    s'.calls other = s.calls other ∧ s'.status other = s.status other := by
  rw [h.calls, h.status]
  refine ⟨Function.update_of_ne hne .., ?_⟩
  cases deleted with
  | true => exact Function.update_of_ne hne ..
  | false => rfl

/-- The bytes that the running callback has read from the connection. -/
def reading (s : State C σ) (conn : C) : Bytes :=
  match s.phase.running with
  | some (conn', results) => if conn' = conn then received results else []
  | none => []

/-- The loop is going to find out what there is to read. -/
def Covered (s : State C σ) (conn : C) : Prop :=
  conn ∈ s.ready ∨ conn ∈ s.readyConns ∨ (∃ results, s.phase = .receiving conn results) ∨
    ∃ results, s.phase = .handling conn results ∧ ending results = some true

structure Inv (s : State C σ) : Prop where
  listed : ∀ conn ∈ s.ready, s.status conn = .added
  once : s.ready.Nodup
  batched : ∀ conn ∈ s.readyConns, s.status conn = .added
  batchedOnce : s.readyConns.Nodup
  running : ∀ conn results, s.phase.running = some (conn, results) →
    s.status conn = .added ∧ conn ∉ s.readyConns
  receiving : ∀ conn results, s.phase = .receiving conn results →
    ∀ result ∈ results, goesOn result = true
  handling : ∀ conn results, s.phase = .handling conn results →
    ending results = some false ∨ ending results = some true
  covered : ∀ conn, s.status conn = .added → isReadable s conn = true → Covered s conn
  conserved : ∀ conn, s.arrived conn =
    (s.calls conn).flatMap received ++ (reading s conn ++ (s.sockets conn).inbox)
  returned : ∀ conn, s.status conn ≠ .deleted → ∀ results ∈ s.calls conn,
    ending results = some false

theorem inv_initial (C : Type) [DecidableEq C] (user : σ) : Inv (initial C user) where
  listed _ h := by cases h
  once := List.nodup_nil
  batched _ h := by cases h
  batchedOnce := List.nodup_nil
  running _ _ h := by cases h
  receiving _ _ h := by cases h
  handling _ _ h := by cases h
  covered _ h := by cases h
  conserved _ := rfl
  returned _ _ _ h := by cases h

theorem reading_eq (s s' : State C σ) (h : s.phase.running = s'.phase.running) (conn : C) :
    reading s conn = reading s' conn := by
  rw [reading, reading, h]

/-- Bytes or the end of the stream come to a socket. -/
theorem Inv.touch (h : Inv s) (conn : C) (socket : Socket) (bytes : Bytes)
    (hinbox : socket.inbox = (s.sockets conn).inbox ++ bytes) :
    Inv (notify { setSocket s conn socket with
      arrived := Function.update s.arrived conn (s.arrived conn ++ bytes) } conn) where
  listed other hmem := by
    rw [notify_status]
    rcases mem_notify_ready.mp hmem with hold | ⟨rfl, hadded⟩
    · exact h.listed other hold
    · exact hadded
  once := by
    apply nodup_notify_ready
    exact h.once
  batched := by simpa [setSocket] using h.batched
  batchedOnce := by simpa [setSocket] using h.batchedOnce
  running := by simpa [setSocket] using h.running
  receiving := by simpa [setSocket] using h.receiving
  handling := by simpa [setSocket] using h.handling
  covered other hadded hreadable := by
    simp only [Covered, mem_notify_ready, notify_readyConns, notify_phase]
    rw [notify_status] at hadded
    by_cases heq : other = conn
    · exact .inl (.inr ⟨heq, heq ▸ hadded⟩)
    · have hsocket : isReadable s other = true := by
        simpa [isReadable, setSocket, Function.update_of_ne heq] using hreadable
      exact (h.covered other hadded hsocket).imp_left Or.inl
  conserved other := by
    have hold := h.conserved other
    simp only [notify_arrived, notify_calls, notify_sockets, setSocket]
    rw [reading_eq _ s (by simp)]
    by_cases heq : other = conn
    · subst heq
      rw [Function.update_self, Function.update_self, hinbox, hold]
      simp
    · rw [Function.update_of_ne heq, Function.update_of_ne heq, hold]
  returned := by simpa [setSocket] using h.returned

theorem Inv.addConnection (h : Inv s) (hstatus : s.status conn = .accepted) :
    Inv (addConnection s conn) := by
  have hne : ∀ other, s.status other = .added → other ≠ conn := by
    rintro other hadded rfl
    rw [hstatus] at hadded
    cases hadded
  have hsame : ∀ other, s.status other = .added →
      Function.update s.status conn .added other = .added := by
    intro other hadded
    rw [Function.update_of_ne (hne other hadded), hadded]
  have hready : ∀ other, other ∈ (EventLoop.addConnection s conn).ready ↔
      other ∈ s.ready ∨ (other = conn ∧ isReadable s conn = true) := by
    intro other
    simp only [EventLoop.addConnection]
    split
    · rename_i hreadable
      rw [mem_notify_ready]
      simp [show isReadable s conn = true from hreadable]
    · rename_i hnot
      simp [show ¬isReadable s conn = true from hnot]
  have hrest : (EventLoop.addConnection s conn).status = Function.update s.status conn .added ∧
      (EventLoop.addConnection s conn).sockets = s.sockets ∧
      (EventLoop.addConnection s conn).readyConns = s.readyConns ∧
      (EventLoop.addConnection s conn).phase = s.phase ∧
      (EventLoop.addConnection s conn).arrived = s.arrived ∧
      (EventLoop.addConnection s conn).calls = s.calls := by
    simp only [EventLoop.addConnection]
    split <;> simp
  obtain ⟨hstatus', hsockets, hbatch, hphase, harrived, hcalls⟩ := hrest
  refine ⟨?_, ?_, ?_, ?_, ?_, ?_, ?_, ?_, ?_, ?_⟩
  · intro other hmem
    rw [hstatus']
    rcases (hready other).mp hmem with hold | ⟨rfl, -⟩
    · exact hsame other (h.listed other hold)
    · exact Function.update_self ..
  · simp only [EventLoop.addConnection]
    split
    · apply nodup_notify_ready
      exact h.once
    · exact h.once
  · rw [hbatch, hstatus']
    exact fun other hmem => hsame other (h.batched other hmem)
  · rw [hbatch]
    exact h.batchedOnce
  · rw [hbatch, hphase, hstatus']
    exact fun other results hrunning =>
      (h.running other results hrunning).imp_left (hsame other)
  · rw [hphase]
    exact h.receiving
  · rw [hphase]
    exact h.handling
  · intro other hadded hreadable
    rw [isReadable, hsockets] at hreadable
    rw [hstatus'] at hadded
    simp only [Covered, hready, hbatch, hphase]
    by_cases heq : other = conn
    · exact .inl (.inr ⟨heq, heq ▸ hreadable⟩)
    · rw [Function.update_of_ne heq] at hadded
      exact (h.covered other hadded hreadable).imp_left Or.inl
  · intro other
    rw [harrived, hcalls, hsockets, reading_eq _ s (congrArg Phase.running hphase)]
    exact h.conserved other
  · intro other hlive results hmem
    rw [hcalls] at hmem
    refine h.returned other ?_ results hmem
    by_cases heq : other = conn
    · rw [heq, hstatus]
      decide
    · rwa [hstatus', Function.update_of_ne heq] at hlive

theorem Inv.poll (h : Inv s) (hphase : s.phase = .between) (hbatch : s.readyConns = []) :
    Inv { s with
      ready := (harvest (isReadable s) pollSize s.ready).2
      readyConns := (harvest (isReadable s) pollSize s.ready).1 } where
  listed other hmem := h.listed other (mem_of_mem_rest hmem)
  once := (nodup_harvest h.once pollSize).2
  batched other hmem := h.listed other (mem_of_mem_harvest hmem).1
  batchedOnce := (nodup_harvest h.once pollSize).1
  running other results hrunning := by
    simp only [hphase] at hrunning
    cases hrunning
  receiving := h.receiving
  handling := h.handling
  covered other hadded hreadable := by
    rcases h.covered other hadded hreadable with hready | hmem | hcallback | hcallback
    · rcases mem_harvest_or_mem_rest pollSize hready hreadable with htaken | hleft
      · exact .inr (.inl htaken)
      · exact .inl hleft
    · rw [hbatch] at hmem
      cases hmem
    · exact .inr (.inr (.inl hcallback))
    · exact .inr (.inr (.inr hcallback))
  conserved := h.conserved
  returned := h.returned

theorem Inv.invoke (h : Inv s) {readyConns : List C} (hphase : s.phase = .between)
    (hbatch : s.readyConns = conn :: readyConns) :
    Inv { s with readyConns, phase := .receiving conn [] } := by
  have honce := h.batchedOnce
  rw [hbatch, List.nodup_cons] at honce
  refine { h with
    batched := ?_
    batchedOnce := honce.2
    running := ?_
    receiving := ?_
    handling := ?_
    covered := ?_
    conserved := ?_ }
  · exact fun other hmem => h.batched other (hbatch ▸ List.mem_cons_of_mem conn hmem)
  · rintro other results hrunning
    obtain ⟨rfl, rfl⟩ := Prod.mk.inj (Option.some.inj hrunning)
    exact ⟨h.batched conn (hbatch ▸ List.mem_cons_self), honce.1⟩
  · intro other results heq
    cases heq
    simp
  · intro other results heq
    cases heq
  · intro other hadded hreadable
    rcases h.covered other hadded hreadable with hready | hmem | ⟨_, heq⟩ | ⟨_, heq, -⟩
    · exact .inl hready
    · rw [hbatch] at hmem
      rcases List.mem_cons.mp hmem with rfl | hmem
      · exact .inr (.inr (.inl ⟨[], rfl⟩))
      · exact .inr (.inl hmem)
    · rw [hphase] at heq
      cases heq
    · rw [hphase] at heq
      cases heq
  · intro other
    have hold := h.conserved other
    simpa [reading, Phase.running, hphase, received] using hold

/-- What a result of `::recv` changes, whether or not the loop of `recv` goes on. -/
theorem Inv.recv_conserved (h : Inv s) {results : List RecvResult} {result : RecvResult}
    {socket : Socket} (hphase : s.phase = .receiving conn results)
    (hrecv : (s.sockets conn).recv result = some socket) (hcallback : s'.phase.running =
      some (conn, results ++ [result])) (hsockets : s'.sockets = Function.update s.sockets conn socket)
    (hcalls : s'.calls = s.calls) (harrived : s'.arrived = s.arrived) (other : C) :
    s'.arrived other =
      (s'.calls other).flatMap received ++ (reading s' other ++ (s'.sockets other).inbox) := by
  have hold := h.conserved other
  rw [reading, hphase] at hold
  simp only [Phase.running] at hold
  rw [harrived, hcalls, hsockets, reading, hcallback, hold]
  by_cases heq : conn = other
  · subst heq
    simp only [if_true, Function.update_self]
    rw [received_append (h.receiving conn results hphase), recv_inbox hrecv]
    simp
  · simp only [heq, if_false, Function.update_of_ne (Ne.symm heq)]

theorem Inv.recvOn (h : Inv s) {results : List RecvResult} {result : RecvResult} {socket : Socket}
    (hphase : s.phase = .receiving conn results)
    (hrecv : (s.sockets conn).recv result = some socket) (hgoesOn : goesOn result = true) :
    Inv { setSocket s conn socket with phase := .receiving conn (results ++ [result]) } := by
  have hrunning := h.running conn results (by rw [hphase]; rfl)
  refine { h with running := ?_, receiving := ?_, handling := ?_, covered := ?_, conserved := ?_ }
  · intro other results' heq
    obtain ⟨rfl, -⟩ := Prod.mk.inj (Option.some.inj heq)
    exact hrunning
  · intro other results' heq
    obtain ⟨rfl, rfl⟩ := Phase.receiving.inj heq
    intro result' hmem
    rcases List.mem_append.mp hmem with hold | hlast
    · exact h.receiving conn results hphase result' hold
    · exact List.mem_singleton.mp hlast ▸ hgoesOn
  · intro other results' heq
    cases heq
  · intro other hadded hreadable
    by_cases heq : other = conn
    · subst heq
      exact .inr (.inr (.inl ⟨_, rfl⟩))
    · have hsocket : isReadable s other = true := by
        simpa [isReadable, setSocket, Function.update_of_ne heq] using hreadable
      rcases h.covered other hadded hsocket with hready | hmem | ⟨_, hother⟩ | ⟨_, hother, -⟩
      · exact .inl hready
      · exact .inr (.inl hmem)
      · exact absurd (Phase.receiving.inj (hother.symm.trans hphase)).1 heq
      · rw [hphase] at hother
        cases hother
  · exact h.recv_conserved hphase hrecv rfl rfl rfl rfl

theorem Inv.recvLast (h : Inv s) {results : List RecvResult} {result : RecvResult} {socket : Socket}
    (hphase : s.phase = .receiving conn results)
    (hrecv : (s.sockets conn).recv result = some socket) (hlast : goesOn result = false) :
    Inv { setSocket s conn socket with phase := .handling conn (results ++ [result]) } := by
  have hrunning := h.running conn results (by rw [hphase]; rfl)
  have hend := ending_append (h.receiving conn results hphase) result
  have hdry := recv_last hrecv hlast
  refine { h with running := ?_, receiving := ?_, handling := ?_, covered := ?_, conserved := ?_ }
  · intro other results' heq
    obtain ⟨rfl, -⟩ := Prod.mk.inj (Option.some.inj heq)
    exact hrunning
  · intro other results' heq
    cases heq
  · intro other results' heq
    obtain ⟨rfl, rfl⟩ := Phase.handling.inj heq
    rw [hend]
    exact hdry.imp_left And.right
  · intro other hadded hreadable
    by_cases heq : other = conn
    · subst heq
      have hsocket : socket.isReadable = true := by
        simpa [isReadable, setSocket] using hreadable
      rcases hdry with ⟨hnot, -⟩ | hexit
      · rw [hnot] at hsocket
        cases hsocket
      · exact .inr (.inr (.inr ⟨_, rfl, hend.trans hexit⟩))
    · have hsocket : isReadable s other = true := by
        simpa [isReadable, setSocket, Function.update_of_ne heq] using hreadable
      rcases h.covered other hadded hsocket with hready | hmem | ⟨_, hother⟩ | ⟨_, hother, -⟩
      · exact .inl hready
      · exact .inr (.inl hmem)
      · exact absurd (Phase.receiving.inj (hother.symm.trans hphase)).1 heq
      · rw [hphase] at hother
        cases hother
  · exact h.recv_conserved hphase hrecv rfl rfl rfl rfl

/-- The callback of a connection returns, and its results are recorded. -/
theorem Inv.handle_conserved (h : Inv s) {results : List RecvResult}
    (hphase : s.phase = .handling conn results) (hbetween : s'.phase = .between)
    (hsockets : s'.sockets = s.sockets)
    (hcalls : s'.calls = Function.update s.calls conn (s.calls conn ++ [results]))
    (harrived : s'.arrived = s.arrived) (other : C) :
    s'.arrived other =
      (s'.calls other).flatMap received ++ (reading s' other ++ (s'.sockets other).inbox) := by
  have hold := h.conserved other
  rw [reading, hphase] at hold
  simp only [Phase.running] at hold
  rw [harrived, hcalls, hsockets, reading, hbetween, hold]
  by_cases heq : conn = other
  · subst heq
    simp [Phase.running, Function.update_self]
  · simp [Phase.running, heq, Function.update_of_ne (Ne.symm heq)]

theorem Inv.keep (h : Inv s) {results : List RecvResult} {sends : List SendResult} {user : σ}
    (hphase : s.phase = .handling conn results)
    (hrun : callback.run conn results sends s.user = some (user, false)) :
    Inv (afterCallback s conn results user) := by
  have hstays : ending results = some false := by
    refine (h.handling conn results hphase).resolve_right fun hexit => ?_
    have hdeleted := callback.deletes hrun (by rw [Connection.recv_eq, hexit]; rfl)
    cases hdeleted
  refine { h with
    running := ?_
    receiving := ?_
    handling := ?_
    covered := ?_
    conserved := ?_
    returned := ?_ }
  · intro other results' heq
    cases heq
  · intro other results' heq
    cases heq
  · intro other results' heq
    cases heq
  · intro other hadded hreadable
    rcases h.covered other hadded hreadable with hready | hmem | ⟨_, hother⟩ | ⟨_, hother, hexit⟩
    · exact .inl hready
    · exact .inr (.inl hmem)
    · rw [hphase] at hother
      cases hother
    · obtain ⟨rfl, rfl⟩ := Phase.handling.inj (hphase.symm.trans hother)
      rw [hstays] at hexit
      cases hexit
  · exact h.handle_conserved hphase rfl rfl rfl rfl
  · intro other hlive results' hmem
    rcases mem_calls hmem with hold | ⟨-, rfl⟩
    · exact h.returned other hlive results' hold
    · exact hstays

theorem Inv.delete (h : Inv s) {results : List RecvResult} {user : σ}
    (hphase : s.phase = .handling conn results) :
    Inv (deleteConnection (afterCallback s conn results user) conn) := by
  have hrunning := h.running conn results (by rw [hphase]; rfl)
  have hother : ∀ other, s.status other = .added → other ≠ conn →
      Function.update s.status conn .deleted other = .added := by
    intro other hadded hne
    rw [Function.update_of_ne hne, hadded]
  have hne : ∀ other, Function.update s.status conn .deleted other ≠ .deleted → other ≠ conn := by
    rintro other hlive rfl
    exact hlive (Function.update_self ..)
  refine ⟨?_, h.once.erase conn, ?_, h.batchedOnce, ?_, ?_, ?_, ?_, ?_, ?_⟩
  · intro other hmem
    obtain ⟨hnot, hmem⟩ := h.once.mem_erase_iff.mp hmem
    exact hother other (h.listed other hmem) hnot
  · intro other hmem
    exact hother other (h.batched other hmem) fun heq => hrunning.2 (heq ▸ hmem)
  · intro other results' heq
    cases heq
  · intro other results' heq
    cases heq
  · intro other results' heq
    cases heq
  · intro other hadded hreadable
    have hnot : other ≠ conn := hne other fun hdeleted => by cases hadded.symm.trans hdeleted
    have hadded' : s.status other = .added := by
      simpa [deleteConnection, afterCallback, Function.update_of_ne hnot] using hadded
    rcases h.covered other hadded' hreadable with hready | hmem | ⟨_, heq⟩ | ⟨_, heq, -⟩
    · exact .inl (h.once.mem_erase_iff.mpr ⟨hnot, hready⟩)
    · exact .inr (.inl hmem)
    · rw [hphase] at heq
      cases heq
    · exact absurd (Phase.handling.inj (heq.symm.trans hphase)).1 hnot
  · exact h.handle_conserved hphase rfl rfl rfl rfl
  · intro other hlive results' hmem
    have hnot := hne other hlive
    have hlive' : s.status other ≠ .deleted := by
      simpa [deleteConnection, afterCallback, Function.update_of_ne hnot] using hlive
    have hcalls : results' ∈ (afterCallback s conn results user).calls other := hmem
    rcases mem_calls hcalls with hold | ⟨heq, -⟩
    · exact h.returned other hlive' results' hold
    · exact absurd heq hnot

theorem Inv.step (h : Inv s) (hstep : Step pollSize callback s event s') : Inv s' := by
  cases hstep with
  | arrive => exact h.touch _ _ _ rfl
  | @finish conn ending =>
      have htouch := h.touch conn { s.sockets conn with ending := some ending } [] (by simp)
      simpa [setSocket] using htouch
  | addConnection hstatus => exact h.addConnection hstatus
  | poll hphase hbatch => exact h.poll hphase hbatch
  | invoke hphase hbatch => exact h.invoke hphase hbatch
  | recvOn hphase hrecv hgoesOn => exact h.recvOn hphase hrecv hgoesOn
  | recvLast hphase hrecv hlast => exact h.recvLast hphase hrecv hlast
  | keep hphase hrun => exact h.keep hphase hrun
  | delete hphase => exact h.delete hphase

theorem inv_run {user : σ} {events : List (Event C)}
    (hrun : Run.run (next pollSize callback) (initial C user) events = some s) : Inv s :=
  Run.invariant' (fun _ _ _ h hnext => h.step (.of_next hnext)) (inv_initial C user) hrun

end FalconLink.EventLoop
