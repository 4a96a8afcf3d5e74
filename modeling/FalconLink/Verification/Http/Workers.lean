import FalconLink.Model.Http.Workers
import FalconLink.Verification.Http.Delivery
import FalconLink.Verification.Http.Transparency

/-! # Handlers of many connections on one cache -/

namespace FalconLink.Http.Workers

variable {C : Type} [DecidableEq C] {env : Env}

/-! ## The steps of a connection -/

section Steps

variable {s s' : State C} {conn : C}

theorem next_request {requestOp : Bytes} (h : next env s (.request conn requestOp) = some s') :
    s' = setWorker s conn (.answering requestOp (respond env.httpResourceDir requestOp)) := by
  simp only [next] at h
  split at h
  · exact (Option.some.inj h).symm
  · cases h

/-- A step of a handler is its next access, which is answered or throws. -/
theorem next_step (h : next env s (.step conn) = some s') :
    ∃ requestOp i, ∃ k : i.Answer → Code Reply,
      s.workers conn = .answering requestOp (.call i k) ∧
        ((∃ r cache, exec env i s.cache = .ok (r, cache) ∧
            s' = setWorker { s with cache } conn (.answering requestOp (k r))) ∨
          ∃ fault, exec env i s.cache = .error fault ∧
            s' = setWorker s conn (.answering requestOp (.fail fault))) := by
  simp only [next] at h
  split at h
  · rename_i requestOp rest hworker
    cases rest with
    | ret reply => cases h
    | fail fault => cases h
    | call i k =>
        refine ⟨requestOp, i, k, hworker, ?_⟩
        cases hexec : exec env i s.cache with
        | ok answer =>
            simp only [Prog.step, hexec, Except.map, Option.map_some, Option.some.injEq] at h
            exact Or.inl ⟨answer.1, answer.2, rfl, h.symm⟩
        | error fault =>
            simp only [Prog.step, hexec, Except.map, Option.map_some, Option.some.injEq] at h
            exact Or.inr ⟨fault, rfl, h.symm⟩
  · cases h

theorem next_send (h : next env s (.send conn) = some s') :
    ∃ requestOp reply, s.workers conn = .answering requestOp (.ret reply) ∧
      s' = setWorker { s with sent := s.sent ++ [⟨conn, requestOp, reply.bytes⟩] } conn
        (if reply.noMoreParse then .deleted else .idle) := by
  simp only [next] at h
  split at h
  · exact ⟨_, _, by assumption, (Option.some.inj h).symm⟩
  · cases h

@[simp] theorem setWorker_self (s : State C) (conn : C) (worker : Worker) :
    (setWorker s conn worker).workers conn = worker := by
  simp [setWorker]

theorem setWorker_of_ne (s : State C) {conn conn' : C} (worker : Worker) (h : conn' ≠ conn) :
    (setWorker s conn worker).workers conn' = s.workers conn' := by
  simp [setWorker, Function.update_of_ne h]

end Steps

/-! ## The invariant -/

/-- What is left of a handler ends as the server without a cache does. -/
def Follows (env : Env) (requestOp : Bytes) (rest : Code Reply) : Prop :=
  match uncached env requestOp with
  | .ok reply => Ensures env (fun path data => env.fs path = .regular data) (· = reply) rest
  | .error fault => Fails env fault rest

theorem follows_respond (env : Env) (requestOp : Bytes) :
    Follows env requestOp (respond env.httpResourceDir requestOp) := by
  rw [Follows]
  split
  · rename_i h
    exact ensures_uncached h
  · rename_i h
    exact fails_respond h

theorem Follows.ret {requestOp : Bytes} {reply : Reply} (h : Follows env requestOp (.ret reply)) :
    uncached env requestOp = .ok reply := by
  rw [Follows] at h
  split at h
  · rename_i hanswer
    rw [hanswer, show reply = _ from h]
  · cases h

theorem Follows.fail {requestOp : Bytes} {fault : Fault} (h : Follows env requestOp (.fail fault)) :
    uncached env requestOp = .error fault := by
  rw [Follows] at h
  split at h
  · exact h.elim
  · rename_i hanswer
    cases h
    exact hanswer

/-- An access keeps the cache faithful, and what is then left still ends in the same way. -/
theorem Follows.step {requestOp : Bytes} {i : Instr} {k : i.Answer → Code Reply} {c : Cache}
    (h : Follows env requestOp (.call i k)) (hc : Faithful env c) :
    (∃ r c', exec env i c = .ok (r, c') ∧ Faithful env c' ∧ Follows env requestOp (k r)) ∨
      ∃ fault, exec env i c = .error fault ∧ Follows env requestOp (.fail fault) := by
  simp only [Follows] at h ⊢
  cases hanswer : uncached env requestOp with
  | ok reply =>
      rw [hanswer] at h
      exact Or.inl (h c hc)
  | error fault =>
      rw [hanswer] at h
      cases h with
      | throws hthrow => exact Or.inr ⟨fault, hthrow Cache Cache.Call.exec c, .thrown⟩
      | read r hread hnext => exact Or.inl ⟨r, c, hread Cache Cache.Call.exec c, hc, hnext⟩

structure Inv (env : Env) (s : State C) : Prop where
  faithful : Faithful env s.cache
  follows : ∀ conn requestOp rest, s.workers conn = .answering requestOp rest →
    Follows env requestOp rest
  sent : ∀ x ∈ s.sent, ∃ reply, uncached env x.requestOp = .ok reply ∧ x.responseBuf = reply.bytes

theorem inv_initial (env : Env) (C : Type) (capacity : UInt64) (clock : ℕ → ℕ) :
    Inv env (initial C capacity clock) where
  faithful := holding_new _ capacity clock
  follows _ _ _ h := by cases h
  sent x hx := by cases hx

/-- A worker is replaced by one that keeps the invariant. -/
theorem Inv.setWorker {s : State C} (h : Inv env s) (conn : C) {worker : Worker}
    (hworker : ∀ requestOp rest, worker = .answering requestOp rest → Follows env requestOp rest) :
    Inv env (setWorker s conn worker) where
  faithful := h.faithful
  follows conn' requestOp rest hrest := by
    by_cases heq : conn' = conn
    · subst heq
      rw [setWorker_self] at hrest
      exact hworker requestOp rest hrest
    · rw [setWorker_of_ne s worker heq] at hrest
      exact h.follows conn' requestOp rest hrest
  sent := h.sent

theorem inv_next {s s' : State C} {event : Event C} (hs : Inv env s)
    (h : next env s event = some s') : Inv env s' := by
  cases event with
  | request conn requestOp =>
      rw [next_request h]
      refine hs.setWorker conn fun requestOp' rest heq => ?_
      cases heq
      exact follows_respond env requestOp
  | step conn =>
      rcases next_step h with ⟨requestOp, i, k, hworker, hstep⟩
      rcases (hs.follows conn requestOp _ hworker).step hs.faithful with
        ⟨r, c, hexec, hc, hfollows⟩ | ⟨fault, hexec, hfollows⟩
      · rcases hstep with ⟨r', c', hexec', rfl⟩ | ⟨fault, hexec', -⟩
        · rw [hexec] at hexec'
          cases hexec'
          have hcache : Inv env { s with cache := c } := ⟨hc, hs.follows, hs.sent⟩
          refine hcache.setWorker conn fun requestOp' rest heq => ?_
          cases heq
          exact hfollows
        · rw [hexec] at hexec'
          cases hexec'
      · rcases hstep with ⟨r', c', hexec', -⟩ | ⟨fault', hexec', rfl⟩
        · rw [hexec] at hexec'
          cases hexec'
        · rw [hexec] at hexec'
          cases hexec'
          refine hs.setWorker conn fun requestOp' rest heq => ?_
          cases heq
          exact hfollows
  | send conn =>
      rcases next_send h with ⟨requestOp, reply, hworker, rfl⟩
      have hanswer := (hs.follows conn requestOp _ hworker).ret
      have hsent : Inv env { s with sent := s.sent ++ [⟨conn, requestOp, reply.bytes⟩] } := by
        refine ⟨hs.faithful, hs.follows, fun x hx => ?_⟩
        rcases List.mem_append.mp hx with hx | hx
        · exact hs.sent x hx
        · rw [List.mem_singleton.mp hx]
          exact ⟨reply, hanswer, rfl⟩
      refine hsent.setWorker conn fun requestOp' rest heq => ?_
      split at heq <;> cases heq

/-- Whatever the capacity and however the handlers of any connections interleave, every response
that is sent is byte for byte the one of the server without a cache, and a handler throws only
where that server does. -/
theorem cache_transparent (env : Env) (capacity : UInt64) (clock : ℕ → ℕ)
    {events : List (Event C)} {s : State C}
    (hrun : Run.run (next env) (initial C capacity clock) events = some s) :
    (∀ x ∈ s.sent, ∃ reply, uncached env x.requestOp = .ok reply ∧ x.responseBuf = reply.bytes) ∧
      ∀ conn requestOp fault, s.workers conn = .answering requestOp (.fail fault) →
        uncached env requestOp = .error fault := by
  have hinv : Inv env s := Run.invariant' (fun _ _ _ hs h => inv_next hs h)
    (inv_initial env C capacity clock) hrun
  exact ⟨hinv.sent, fun conn requestOp fault h => (hinv.follows conn requestOp _ h).fail⟩

/-- Two connections miss the file at the same time, and the insertion of the second one is
refused. -/
def bothMiss : List (Event Bool) :=
  [.request false getAndKeep, .request true getAndClose] ++ List.replicate 5 (.step false) ++
    List.replicate 5 (.step true) ++ [.step false, .step true, .send true, .send false]

theorem cache_transparent_bothMiss :
    ∃ s, Run.run (next (serving (ascii "/a") (ascii "x"))) (initial Bool 10 id) bothMiss = some s ∧
      s.sent.length = 2 ∧
      ∀ x ∈ s.sent, ∃ reply, uncached (serving (ascii "/a") (ascii "x")) x.requestOp = .ok reply ∧
        x.responseBuf = reply.bytes := by
  have hsome : (Run.run (next (serving (ascii "/a") (ascii "x"))) (initial Bool 10 id)
    bothMiss).isSome := by decide
  exact ⟨_, (Option.some_get hsome).symm, by rfl,
    (cache_transparent _ 10 id (Option.some_get hsome).symm).1⟩

end FalconLink.Http.Workers
