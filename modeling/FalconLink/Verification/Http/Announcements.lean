import FalconLink.Verification.Http.Delivery
import FalconLink.Verification.Http.Heads

/-! # What the server announces

The `Connection` header of a response and the decision to close the connection are made in
different places. They agree in every reply, and so in every call of the handler.
-/

namespace FalconLink.Http

open Framing Connection

/-! ## Replies -/

/-- The handler answers the frame with `reply` when the cache has some contents. -/
def Emits (env : Env) (frame : Bytes) (reply : Reply) : Prop :=
  ∃ cache cache', (respond env.httpResourceDir frame).run (exec env) cache = .ok (reply, cache')

theorem Emits.possible {env : Env} {frame : Bytes} {reply : Reply} (h : Emits env frame reply) :
    Possible (target env.httpResourceDir frame) reply := by
  obtain ⟨cache, cache', hrun⟩ := h
  rw [respond_eq] at hrun
  exact possible_of_returns (Prog.returns_of_run hrun)

/-- One of the lines of the head is a `Connection` header with the value. -/
def Carries (value response : Bytes) : Prop :=
  ∃ head body, popFrame crlfcrlf response = some (head, body) ∧
    headerConnection ++ colon ++ value ∈ split head crlf

theorem Emits.carries_iff {env : Env} {frame : Bytes} {reply : Reply} (h : Emits env frame reply)
    (value : Bytes) : Carries value reply.bytes ↔
      value = if reply.noMoreParse then connectionClose else connectionKeepAlive := by
  have hhead := h.possible.isHead
  rw [Carries, Reply.bytes, hhead.popFrame]
  simpa using hhead.connection_iff value

theorem Emits.carries_close_iff {env : Env} {frame : Bytes} {reply : Reply}
    (h : Emits env frame reply) :
    Carries connectionClose reply.bytes ↔ reply.noMoreParse = true := by
  rw [h.carries_iff]
  cases reply.noMoreParse <;> decide

theorem Emits.carries_keepAlive_iff {env : Env} {frame : Bytes} {reply : Reply}
    (h : Emits env frame reply) :
    Carries connectionKeepAlive reply.bytes ↔ reply.noMoreParse = false := by
  rw [h.carries_iff]
  cases reply.noMoreParse <;> decide

/-! ## Calls of the handler -/

/-- The responses that were written. -/
def Session.responses (s : Session) : List Bytes :=
  s.deliveries.map Delivery.response

namespace Session

/-- What the loop of `processHttpRequest` does from `s` to `t`: it pops frames and answers them
in order. When it ends without an exception, only its last reply may close the connection, and
it stops early only then. -/
structure Served (env : Env) (s t : Session) (popped : List Bytes) (replies : List Reply)
    (rest : Bytes) : Prop where
  pops : Pops crlfcrlf s.conn.readBuf popped rest
  emits : List.Forall₂ (Emits env) popped replies
  responses : t.responses = s.responses ++ replies.map Reply.bytes
  kept : t.status = .kept → t.conn.readBuf = rest ∧ popFrame crlfcrlf rest = none ∧
    ∀ reply ∈ replies, reply.noMoreParse = false
  deleted : t.status = .deleted → t.conn.readBuf = rest ∧
    ∃ front last, replies = front ++ [last] ∧ last.noMoreParse = true ∧
      ∀ reply ∈ front, reply.noMoreParse = false

variable {env : Env}

theorem deliver_responses (s : Session) (reply : Reply) :
    (s.deliver reply).responses = s.responses ++ [reply.bytes] := by
  simp [responses, deliver]

theorem deliver_readBuf (s : Session) (reply : Reply) :
    (s.deliver reply).conn.readBuf = s.conn.readBuf :=
  congrArg (fun s => s.conn.readBuf) (deliver_withReadBuf s s.conn.readBuf reply)

theorem deliver_status (s : Session) (reply : Reply) :
    (s.deliver reply).status = .blocked ∨
      (s.deliver reply).status = if reply.noMoreParse then .deleted else .kept := by
  simp only [deliver]
  split
  · exact .inl rfl
  · exact .inr rfl

/-- One round either ends with an exception or answers the frame with one response. -/
theorem serveFrame_cases (s : Session) (frame : Bytes) :
    (∃ fault, serveFrame env s frame = { s with status := .faulted fault }) ∨
      ∃ reply, Emits env frame reply ∧
        (serveFrame env s frame).conn.readBuf = s.conn.readBuf ∧
        (serveFrame env s frame).responses = s.responses ++ [reply.bytes] ∧
        ((serveFrame env s frame).status = .blocked ∨
          (serveFrame env s frame).status = if reply.noMoreParse then .deleted else .kept) := by
  cases hrun : (respond env.httpResourceDir frame).run (exec env) s.cache with
  | error fault => exact .inl ⟨fault, serveFrame_error hrun⟩
  | ok out =>
      rw [serveFrame_ok hrun]
      exact .inr ⟨out.1, ⟨s.cache, out.2, hrun⟩, deliver_readBuf _ out.1, deliver_responses _ out.1,
        deliver_status _ out.1⟩

variable {s s' t : Session} {frame rest : Bytes} {reply : Reply}

theorem served_nothing (hpop : popFrame crlfcrlf s.conn.readBuf = none)
    (hs : s.status = .kept) : Served env s s [] [] s.conn.readBuf where
  pops := .nil _
  emits := .nil
  responses := by simp
  kept _ := ⟨rfl, hpop, by simp⟩
  deleted h := by simp [hs] at h

theorem served_faulted {fault : Fault} (hresponses : t.responses = s.responses)
    (hfault : t.status = .faulted fault) : Served env s t [] [] s.conn.readBuf where
  pops := .nil _
  emits := .nil
  responses := by simp [hresponses]
  kept h := by simp [hfault] at h
  deleted h := by simp [hfault] at h

/-- The loop stops after its first frame. -/
theorem served_last (hpop : popFrame crlfcrlf s.conn.readBuf = some (frame, rest))
    (hemits : Emits env frame reply) (hresponses : t.responses = s.responses ++ [reply.bytes])
    (hreadBuf : t.conn.readBuf = rest) (hnot : t.status ≠ .kept)
    (hclose : t.status = .deleted → reply.noMoreParse = true) :
    Served env s t [frame] [reply] rest where
  pops := .cons hpop (.nil rest)
  emits := .cons hemits .nil
  responses := hresponses
  kept h := absurd h hnot
  deleted h := ⟨hreadBuf, [], reply, rfl, hclose h, by simp⟩

/-- The loop goes on after its first frame. -/
theorem Served.cons {popped : List Bytes} {replies : List Reply} {left : Bytes}
    (h : Served env s' t popped replies left)
    (hpop : popFrame crlfcrlf s.conn.readBuf = some (frame, rest)) (hemits : Emits env frame reply)
    (hresponses : s'.responses = s.responses ++ [reply.bytes])
    (hreadBuf : s'.conn.readBuf = rest) (hopen : reply.noMoreParse = false) :
    Served env s t (frame :: popped) (reply :: replies) left where
  pops := .cons hpop (hreadBuf ▸ h.pops)
  emits := .cons hemits h.emits
  responses := by simp [h.responses, hresponses]
  kept hend := by
    obtain ⟨hleft, hnone, hreplies⟩ := h.kept hend
    exact ⟨hleft, hnone, List.forall_mem_cons.mpr ⟨hopen, hreplies⟩⟩
  deleted hend := by
    obtain ⟨hleft, front, last, rfl, hlast, hfront⟩ := h.deleted hend
    exact ⟨hleft, reply :: front, last, rfl, hlast, List.forall_mem_cons.mpr ⟨hopen, hfront⟩⟩

theorem serveLoop_served (rounds : ℕ) :
    ∀ s : Session, s.conn.readBuf.length ≤ rounds → s.status = .kept →
      ∃ popped replies rest, Served env s (serveLoop env rounds s) popped replies rest := by
  induction rounds with
  | zero =>
      intro s hrounds hs
      have hempty : s.conn.readBuf = [] := List.length_eq_zero_iff.mp (by omega)
      exact ⟨[], [], _, served_nothing (by rw [hempty]; decide) hs⟩
  | succ rounds ih =>
      intro s hrounds hs
      cases hpop : popFrame crlfcrlf s.conn.readBuf with
      | none =>
          rw [serveLoop_incomplete (rounds + 1) hpop]
          exact ⟨[], [], _, served_nothing hpop hs⟩
      | some pair =>
          obtain ⟨frame, rest⟩ := pair
          have hshorter := popFrame_rest_length crlfcrlf_ne_nil hpop
          rw [serveLoop_frame rounds hpop]
          rcases @serveFrame_cases env (s.withReadBuf rest) frame with
            ⟨fault, hfault⟩ | ⟨reply, hemits, hreadBuf, hresponses, hstatus⟩
          · rw [hfault]
            exact ⟨[], [], _, served_faulted rfl rfl⟩
          · by_cases hkept : (serveFrame env (s.withReadBuf rest) frame).status = .kept
            · rw [if_pos hkept]
              have hlength : (serveFrame env (s.withReadBuf rest) frame).conn.readBuf.length ≤
                  rounds := by
                rw [hreadBuf, withReadBuf_readBuf]
                omega
              obtain ⟨popped, replies, left, h⟩ := ih _ hlength hkept
              have hopen : reply.noMoreParse = false := by
                cases hclose : reply.noMoreParse with
                | false => rfl
                | true => simp [hkept, hclose] at hstatus
              exact ⟨_, _, left, h.cons hpop hemits hresponses hreadBuf hopen⟩
            · rw [if_neg hkept]
              refine ⟨_, _, rest, served_last hpop hemits hresponses hreadBuf hkept fun hend => ?_⟩
              cases hclose : reply.noMoreParse with
              | true => rfl
              | false => simp [hend, hclose] at hstatus

theorem exists_emits {popped : List Bytes} {replies : List Reply}
    (h : List.Forall₂ (Emits env) popped replies) :
    ∀ reply ∈ replies, ∃ frame, Emits env frame reply := by
  induction h with
  | nil => simp
  | cons hfirst _ ih =>
      rw [List.forall_mem_cons]
      exact ⟨⟨_, hfirst⟩, ih⟩

/-- A call in which `recv` returns without an exit. -/
theorem processHttpRequest_served {s : Session} {results : List RecvResult} {out : Received}
    (hs : s.status = .kept) (hrecv : s.conn.recv 0 results = some out) (hexit : out.exit = false) :
    ∃ popped replies rest,
      Served env { s with conn := out.conn } (processHttpRequest env s results) popped replies
        rest := by
  have hcall : processHttpRequest env s results =
      serveLoop env out.conn.readBuf.length { s with conn := out.conn } := by
    simp [processHttpRequest, hrecv, hexit]
  rw [hcall]
  exact serveLoop_served _ _ le_rfl hs

/-- A call that returns normally answers the frames it pops in order. All responses but the last
keep the connection alive, the connection is deleted exactly when the last one says so, and when
no response says so, no complete frame is left. -/
theorem processHttpRequest_announced {s : Session} {results : List RecvResult} {out : Received}
    (hs : s.status = .kept) (hrecv : s.conn.recv 0 results = some out) (hexit : out.exit = false)
    (hreturns : (processHttpRequest env s results).status = .kept ∨
      (processHttpRequest env s results).status = .deleted) :
    ∃ popped responses,
      Pops crlfcrlf out.conn.readBuf popped (processHttpRequest env s results).conn.readBuf ∧
      (processHttpRequest env s results).responses = s.responses ++ responses ∧
      List.Forall₂ (fun frame response => ∃ reply, Emits env frame reply ∧ response = reply.bytes)
        popped responses ∧
      (∀ response ∈ responses.dropLast, Carries connectionKeepAlive response) ∧
      ((processHttpRequest env s results).status = .deleted ↔
        ∃ last, responses.getLast? = some last ∧ Carries connectionClose last) ∧
      ((∀ response ∈ responses, ¬Carries connectionClose response) →
        popFrame crlfcrlf (processHttpRequest env s results).conn.readBuf = none) := by
  obtain ⟨popped, replies, rest, h⟩ := @processHttpRequest_served env s results out hs hrecv hexit
  have hemits := exists_emits h.emits
  have hresponses : List.Forall₂
      (fun frame response => ∃ reply, Emits env frame reply ∧ response = reply.bytes) popped
      (replies.map Reply.bytes) := by
    rw [List.forall₂_map_right_iff]
    exact h.emits.imp fun frame reply hreply => ⟨reply, hreply, rfl⟩
  cases hreturns with
  | inl hkept =>
      obtain ⟨hrest, hnone, hopen⟩ := h.kept hkept
      refine ⟨popped, _, hrest ▸ h.pops, h.responses, hresponses, ?_, ?_, fun _ => hrest ▸ hnone⟩
      · intro response hmem
        obtain ⟨reply, hreply, rfl⟩ := List.mem_map.mp (List.mem_of_mem_dropLast hmem)
        obtain ⟨frame, hframe⟩ := hemits reply hreply
        exact hframe.carries_keepAlive_iff.mpr (hopen reply hreply)
      · simp only [hkept, false_iff, reduceCtorEq]
        rintro ⟨response, hlast, hclose⟩
        obtain ⟨reply, hreply, rfl⟩ := List.mem_map.mp (List.mem_of_getLast? hlast)
        obtain ⟨frame, hframe⟩ := hemits reply hreply
        rw [hframe.carries_close_iff, hopen reply hreply] at hclose
        cases hclose
  | inr hdeleted =>
      obtain ⟨hrest, front, last, rfl, hlast, hfront⟩ := h.deleted hdeleted
      obtain ⟨frame, hframe⟩ := hemits last (by simp)
      have hclose := hframe.carries_close_iff.mpr hlast
      refine ⟨popped, _, hrest ▸ h.pops, h.responses, hresponses, ?_, ?_, fun hno => ?_⟩
      · intro response hmem
        rw [List.map_append, List.map_singleton, List.dropLast_concat] at hmem
        obtain ⟨reply, hreply, rfl⟩ := List.mem_map.mp hmem
        obtain ⟨frame, hframe⟩ := hemits reply (by simp [hreply])
        exact hframe.carries_keepAlive_iff.mpr (hfront reply hreply)
      · exact iff_of_true hdeleted ⟨last.bytes, by simp, hclose⟩
      · exact absurd hclose (hno last.bytes (by simp))

theorem processHttpRequest_announced_serving :
    ∃ last, (processHttpRequest (serving (ascii "/a") (ascii "x"))
        (start (Cache.new 10 id) [.accepted 1000, .accepted 1000])
        (arrival (getAndKeep ++ getAndClose))).responses.getLast? = some last ∧
      Carries connectionClose last := by
  have hread : (Connection.empty.recv 0 (arrival (getAndKeep ++ getAndClose))).map
      Received.exit = some false := by decide
  obtain ⟨out, hrecv, hexit⟩ := Option.map_eq_some_iff.mp hread
  have hdeleted : (processHttpRequest (serving (ascii "/a") (ascii "x"))
      (start (Cache.new 10 id) [.accepted 1000, .accepted 1000])
      (arrival (getAndKeep ++ getAndClose))).status = .deleted := by decide
  obtain ⟨popped, responses, -, heq, -, -, hiff, -⟩ :=
    processHttpRequest_announced rfl hrecv hexit (.inr hdeleted)
  rw [heq]
  exact hiff.mp hdeleted

end Session

end FalconLink.Http
