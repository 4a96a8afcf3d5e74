import FalconLink.Model.Http.Reactor
import FalconLink.Verification.EventLoop.Draining
import FalconLink.Verification.Http.Segmentation

/-! # The requests that a reactor answers

Each connection of a reactor is sent the answers to the requests that have come from it, in order,
whatever happens on the other connections.
-/

namespace FalconLink.Http

open Framing Connection

/-! ## Frames of a stream that has grown -/

section

variable {env : Env} {batches : List (List RecvResult)} {results : List RecvResult}

theorem Session.stream_concat (hbatches : Data batches) (hending : ending results = some false) :
    stream (batches ++ [results]) = stream batches ++ received results := by
  have hall : Data (batches ++ [results]) := by
    intro other hmem
    rcases List.mem_append.mp hmem with hold | hlast
    · exact hbatches other hold
    · exact List.mem_singleton.mp hlast ▸ hending
  rw [hbatches.stream_eq, hall.stream_eq, List.map_append, List.flatten_append]
  simp

theorem answers_append_kept {front : List Bytes} (back : List Bytes)
    (h : verdict env front = .kept) :
    answers env (front ++ back) = answers env front ++ answers env back ∧
      verdict env (front ++ back) = verdict env back := by
  induction front with
  | nil => exact ⟨rfl, rfl⟩
  | cons frame front ih =>
      rw [verdict] at h
      split at h
      · rename_i reply hreply
        split at h
        · cases h
        · rename_i hopen
          obtain ⟨hanswers, hverdict⟩ := ih h
          simp [answers, verdict, hreply, hopen, hanswers, hverdict]
      · cases h

/-- When the connection is kept, every frame has its answer. -/
theorem answered_of_kept {frames : List Bytes} (h : verdict env frames = .kept) :
    List.Forall₂ (fun frame reply => uncached env frame = .ok reply ∧ reply.noMoreParse = false)
      frames (answers env frames) := by
  induction frames with
  | nil => exact .nil
  | cons frame frames ih =>
      rw [verdict] at h
      split at h
      · rename_i reply hreply
        split at h
        · cases h
        · rename_i hopen
          simp only [answers, hreply, hopen]
          exact .cons ⟨hreply, by simpa using hopen⟩ (ih h)
      · cases h

end

namespace Session

/-! ## A call that returns -/

section

variable {env : Env} {P : Bytes → Bytes → Prop} {R : Reply → Reply → Prop}

theorem serveFrames_holding (hR : AnswersWith env P R) (frames : List Bytes) :
    ∀ s : Session, Ready s → Holding P s.cache →
      Holding P (serveFrames env frames s).cache ∧
        ((serveFrames env frames s).status = .kept → Ready (serveFrames env frames s)) := by
  induction frames with
  | nil => exact fun s hs hcache => ⟨hcache, fun _ => hs⟩
  | cons frame frames ih =>
      intro s hs hcache
      cases hanswer : uncached env frame with
      | error fault =>
          have hserved := serveFrame_error (run_respond_error hanswer s.cache)
          rw [serveFrames_cons_stopped (by rw [hserved]; simp), hserved]
          exact ⟨hcache, fun h => by cases h⟩
      | ok reply =>
          obtain ⟨_, _, -, hcache', -, hstatus⟩ := serveFrame_answered hR hs hcache hanswer
          by_cases hkept : (serveFrame env s frame).status = .kept
          · rw [serveFrames_cons_kept hkept]
            refine ih _ ⟨hkept, ?_⟩ hcache'
            rcases hstatus with hblocked | ⟨-, hbuf⟩
            · cases hkept.symm.trans hblocked
            · exact hbuf
          · rw [serveFrames_cons_stopped hkept]
            exact ⟨hcache', fun h => absurd h hkept⟩

end

theorem responseBytes_answered {ds : List Delivery} {replies : List Reply}
    (h : List.Forall₂ (fun d reply => ∃ reply', reply' = reply ∧ d.response = reply'.bytes) ds
      replies) : responseBytes ds = replies.flatMap Reply.bytes := by
  induction h with
  | nil => rfl
  | cons hfirst _ ih =>
      obtain ⟨_, rfl, hresponse⟩ := hfirst
      rw [responseBytes, List.flatMap_cons, List.flatMap_cons, hresponse, ← ih, responseBytes]

/-- A call that has served `frames` and has left `rest` unread. All is sent when no `::send` fails
for good. -/
structure HasServed (env : Env) (s t : Session) (frames : List Bytes) (rest : Bytes) : Prop where
  faithful : Faithful env t.cache
  accepted : .failed ∉ s.sends → acceptedBytes t.deliveries =
    acceptedBytes s.deliveries ++ (answers env frames).flatMap Reply.bytes
  status : t.status = verdict env frames
  conn : t.status = .kept → t.conn = ⟨rest, []⟩

/-- A call that returns, and whose `recv` has not reported an exit, answers what has arrived. -/
theorem processHttpRequest_serves {env : Env} {s : Session} {results : List RecvResult}
    (hs : Ready s) (hcache : Faithful env s.cache) (hending : ending results = some false)
    (hreturned : (processHttpRequest env s results).status ≠ .blocked) :
    HasServed env s (processHttpRequest env s results)
      (drain crlfcrlf (s.conn.readBuf ++ received results)).1
      (drain crlfcrlf (s.conn.readBuf ++ received results)).2 := by
  have hcall := @processHttpRequest_eq env s results
  rw [hending] at hcall
  simp only at hcall
  obtain ⟨left, hloop, hleft⟩ := @serveLoop_eq env (s.conn.readBuf ++ received results) _ s le_rfl
    hs.kept
  rw [hloop] at hcall
  rw [hcall] at hreturned ⊢
  generalize (drain crlfcrlf (s.conn.readBuf ++ received results)).1 = frames at *
  generalize (drain crlfcrlf (s.conn.readBuf ++ received results)).2 = rest at *
  obtain ⟨hfaithful, hready⟩ := serveFrames_holding (answersWith_faithful env) frames s hs hcache
  obtain ⟨ds, answered, hds, -, hresponses, hall⟩ :=
    serveFrames_answers (answersWith_faithful env) frames s hs hcache
  obtain ⟨used, ds', returned, hused, hds', hlog, hblocked, -⟩ := @serveFrames_logged env frames s hs
  obtain rfl : ds' = ds := List.append_cancel_left (hds'.symm.trans hds)
  obtain ⟨hstatus, rfl⟩ := hall hreturned
  refine ⟨hfaithful, fun hsends => ?_, hstatus, fun hkept => ?_⟩
  · have htrue : returned = true := by
      cases returned with
      | true => rfl
      | false => exact absurd (hblocked.mpr rfl) hreturned
    have hno : .failed ∉ used := fun hmem => hsends (hused ▸ List.mem_append_left _ hmem)
    have hbytes := responseBytes_answered hresponses
    change acceptedBytes (serveFrames env frames s).deliveries = _
    rw [hds, acceptedBytes, List.flatMap_append, ← hbytes, ← hlog.complete hno htrue]
    rfl
  · rw [hleft hkept]
    exact congrArg (Connection.mk rest) (hready hkept).written

/-- A call that reads on in a stream without an exit. -/
theorem drain_stream_concat {batches : List (List RecvResult)} {results : List RecvResult}
    (hbatches : Data batches) (hending : ending results = some false) :
    drain crlfcrlf (stream (batches ++ [results])) =
      (frames batches ++ (drain crlfcrlf ((drain crlfcrlf (stream batches)).2 ++
          received results)).1,
        (drain crlfcrlf ((drain crlfcrlf (stream batches)).2 ++ received results)).2) := by
  rw [stream_concat hbatches hending, drain_append crlfcrlf_ne_nil]
  rfl

end Session

namespace Reactor

open EventLoop Session

variable {C : Type} [DecidableEq C] {env : Env} {pollSize : ℕ}

/-! ## The callback -/

/-- A call that returns, with the session it leaves. -/
inductive Handled (env : Env) (user : User C) (conn : C) (results : List RecvResult)
    (sends : List SendResult) (t : Session) : Bool → Prop where
  | exit (hending : ending results = some true) (hcache : t.cache = user.cache)
      (hdeliveries : t.deliveries = user.deliveries conn) :
      Handled env user conn results sends t true
  | served {deleted : Bool} (hending : ending results = some false)
      (hstatus : t.status = if deleted then .deleted else .kept)
      (hserved : HasServed env (user.session conn sends) t
        (drain crlfcrlf ((user.conns conn).readBuf ++ received results)).1
        (drain crlfcrlf ((user.conns conn).readBuf ++ received results)).2) :
      Handled env user conn results sends t deleted

theorem handled {conn : C} {results : List RecvResult} {sends : List SendResult}
    {user user' : User C} {deleted : Bool} (hwritten : (user.conns conn).writeBuf = [])
    (hcache : Faithful env user.cache)
    (h : handle env conn results sends user = some (user', deleted)) :
    ∃ t, user' = user.store conn t ∧ Handled env user conn results sends t deleted := by
  have hcall := @processHttpRequest_eq env (user.session conn sends) results
  have hserves := @processHttpRequest_serves env (user.session conn sends) results ⟨rfl, hwritten⟩
    hcache
  rw [handle] at h
  generalize (user.session conn sends).processHttpRequest env results = t at h hcall hserves
  refine ⟨t, ?_⟩
  cases hending : ending results with
  | none =>
      rw [hending] at hcall
      simp [hcall] at h
  | some exit =>
      rw [hending] at hcall hserves
      cases exit with
      | true =>
          simp only at hcall
          have hstatus : t.status = .deleted := by rw [hcall]
          rw [hstatus] at h
          obtain ⟨rfl, rfl⟩ := Prod.mk.inj (Option.some.inj h)
          exact ⟨rfl, .exit hending (by rw [hcall]; rfl) (by rw [hcall]; rfl)⟩
      | false =>
          cases hstatus : t.status with
          | kept =>
              rw [hstatus] at h
              obtain ⟨rfl, rfl⟩ := Prod.mk.inj (Option.some.inj h)
              exact ⟨rfl, .served hending hstatus (hserves rfl (by simp [hstatus]))⟩
          | deleted =>
              rw [hstatus] at h
              obtain ⟨rfl, rfl⟩ := Prod.mk.inj (Option.some.inj h)
              exact ⟨rfl, .served hending hstatus (hserves rfl (by simp [hstatus]))⟩
          | blocked =>
              rw [hstatus] at h
              cases h
          | faulted fault =>
              rw [hstatus] at h
              cases h

/-! ## The reactor -/

/-- What is known of one connection. -/
structure ConnInv (env : Env) (status : EventLoop.Status) (conn : Connection)
    (deliveries : List Delivery) (calls : List (List RecvResult)) : Prop where
  conn : status ≠ .deleted → conn = ⟨(drain crlfcrlf (stream calls)).2, []⟩
  kept : status ≠ .deleted → verdict env (frames calls) = .kept
  deleted : status = .deleted →
    verdict env (frames calls) = .deleted ∨ ∃ results ∈ calls, ending results = some true
  accepted : acceptedBytes deliveries = (answers env (frames calls)).flatMap Reply.bytes

omit [DecidableEq C] in
/-- A call for the connection returns. -/
theorem ConnInv.returned {user : User C} {conn : C} {status : EventLoop.Status}
    {calls : List (List RecvResult)} {results : List RecvResult} {sends : List SendResult}
    {deleted : Bool} {t : Session} (hsends : .failed ∉ sends)
    (h : ConnInv env status (user.conns conn) (user.deliveries conn) calls)
    (hlive : status ≠ .deleted) (hdata : Data calls)
    (hhandled : Handled env user conn results sends t deleted) :
    ConnInv env (if deleted then .deleted else status) t.conn t.deliveries (calls ++ [results]) := by
  cases hhandled with
  | exit hending hcache hdeliveries =>
      have hframes : frames (calls ++ [results]) = frames calls := by
        rw [frames, stream_append_last hdata hending]
        rfl
      refine ⟨fun hno => absurd rfl hno, fun hno => absurd rfl hno, fun _ => .inr ?_, ?_⟩
      · exact ⟨results, List.mem_append_right _ List.mem_cons_self, hending⟩
      · rw [hframes, hdeliveries, h.accepted]
  | served hending hstatus hserved =>
      have hgrown := drain_stream_concat hdata hending
      have hconn := h.conn hlive
      rw [hconn] at hserved
      have hframes : frames (calls ++ [results]) = frames calls ++
          (drain crlfcrlf ((drain crlfcrlf (stream calls)).2 ++ received results)).1 := by
        rw [frames, hgrown]
      obtain ⟨hanswers, hverdict⟩ := answers_append_kept
        (drain crlfcrlf ((drain crlfcrlf (stream calls)).2 ++ received results)).1 (h.kept hlive)
      have hends := hserved.status.symm.trans hstatus
      refine ⟨fun hno => ?_, fun hno => ?_, fun hyes => .inl ?_, ?_⟩
      · have hkept : t.status = .kept := by
          rw [hstatus]
          cases deleted with
          | true => exact absurd rfl hno
          | false => rfl
        rw [hserved.conn hkept, hgrown]
      · rw [hframes, hverdict, hends]
        cases deleted with
        | true => exact absurd rfl hno
        | false => rfl
      · rw [hframes, hverdict, hends]
        cases deleted with
        | true => rfl
        | false => exact absurd hyes hlive
      · rw [hframes, hanswers, List.flatMap_append, ← h.accepted]
        exact hserved.accepted hsends

omit [DecidableEq C] in
/-- What a call leaves in the write buffer of a connection that is kept. -/
theorem Handled.written {user : User C} {conn : C} {results : List RecvResult}
    {sends : List SendResult} {t : Session}
    (h : Handled env user conn results sends t false) : t.conn.writeBuf = [] := by
  cases h with
  | served hending hstatus hserved => rw [hserved.conn hstatus]

omit [DecidableEq C] in
theorem Handled.faithful {user : User C} {conn : C} {results : List RecvResult}
    {sends : List SendResult} {deleted : Bool} {t : Session}
    (h : Handled env user conn results sends t deleted) (hcache : Faithful env user.cache) :
    Faithful env t.cache := by
  cases h with
  | exit hending hsame => exact hsame ▸ hcache
  | served hending hstatus hserved => exact hserved.faithful

/-- Whatever is sent to the other connections, they are written out, and the cache is faithful. -/
structure ServeInv (env : Env) (s : State C (User C)) (conn : C) : Prop where
  faithful : Faithful env s.user.cache
  written : ∀ other, s.status other ≠ .deleted → (s.user.conns other).writeBuf = []
  known : ConnInv env (s.status conn) (s.user.conns conn) (s.user.deliveries conn) (s.calls conn)

omit [DecidableEq C] in
theorem serveInv_initial (env : Env) (conn : C) (capacity : UInt64) (clock : ℕ → ℕ) :
    ServeInv env (EventLoop.initial C (User.initial C capacity clock)) conn where
  faithful := holding_new _ capacity clock
  written _ _ := rfl
  known := ⟨fun _ => rfl, fun _ => rfl, fun h => (by cases h), rfl⟩

section

variable {s s' : State C (User C)} {event : Event C} {conn : C}

theorem ServeInv.step (h : ServeInv env s conn) (hinv : Inv s) (hsends : Sends conn s event)
    (hstep : Step pollSize (callback env C) s event s') : ServeInv env s' conn := by
  rcases hstep.returned_or with ⟨conn', results, sends, deleted, rfl, hreturned⟩ | hsame
  · have hadded := (hinv.running conn' results (by rw [hreturned.phase]; rfl)).1
    have hlive : s.status conn' ≠ .deleted := by
      rw [hadded]
      decide
    obtain ⟨t, huser, hhandled⟩ := handled (h.written conn' hlive) h.faithful hreturned.run
    refine ⟨?_, fun other hother => ?_, ?_⟩
    · rw [huser]
      exact hhandled.faithful h.faithful
    · rw [huser]
      by_cases heq : other = conn'
      · subst heq
        cases deleted with
        | true => exact absurd (by rw [hreturned.status]; exact Function.update_self ..) hother
        | false => simpa [User.store] using hhandled.written
      · have hold := h.written other ((hreturned.frame heq).2 ▸ hother)
        simpa [User.store, Function.update_of_ne heq] using hold
    · by_cases heq : conn = conn'
      · subst heq
        have hnext := h.known.returned (hreturned.sends hsends) hlive (hinv.returned conn hlive)
          hhandled
        rw [huser, hreturned.calls, hreturned.status]
        cases deleted <;> simpa [User.store] using hnext
      · obtain ⟨hcalls, hstatus⟩ := hreturned.frame heq
        rw [huser, hcalls, hstatus]
        simpa [User.store, Function.update_of_ne heq] using h.known
  · obtain ⟨huser, hcalls, hstatus⟩ := hsame
    have hold := h.known
    refine ⟨huser ▸ h.faithful, fun other hother => ?_, ?_⟩
    · rw [huser]
      exact h.written other ((hstatus other).not.mp hother)
    · rw [huser, hcalls]
      exact ⟨fun hno => hold.conn ((hstatus conn).not.mp hno),
        fun hno => hold.kept ((hstatus conn).not.mp hno),
        fun hyes => hold.deleted ((hstatus conn).mp hyes), hold.accepted⟩

theorem serveInv_run {capacity : UInt64} {clock : ℕ → ℕ} {events : List (Event C)}
    (hsends : Run.Along (EventLoop.next pollSize (callback env C)) (Sends conn)
      (EventLoop.initial C (User.initial C capacity clock)) events)
    (hrun : Run.run (EventLoop.next pollSize (callback env C))
      (EventLoop.initial C (User.initial C capacity clock)) events = some s) :
    Inv s ∧ ServeInv env s conn :=
  Run.invariant (I := fun s => Inv s ∧ ServeInv env s conn)
    (fun _ _ _ h hsends hnext => ⟨h.1.step (.of_next hnext), h.2.step h.1 hsends (.of_next hnext)⟩)
    ⟨inv_initial C _, serveInv_initial env conn capacity clock⟩ hsends hrun

/-- Of what the callbacks have read the handler has seen the bytes before an exit. -/
theorem stream_received (batches : List (List RecvResult)) :
    stream batches <+: batches.flatMap received := by
  induction batches with
  | nil => exact List.prefix_rfl
  | cons results batches ih =>
      rw [stream, List.flatMap_cons]
      split
      · exact (List.prefix_append_right_inj _).mpr ih
      · exact List.nil_prefix

/-- What the handler has seen has arrived. -/
theorem stream_arrived (hinv : Inv s) (conn : C) : stream (s.calls conn) <+: s.arrived conn := by
  rw [hinv.conserved conn]
  exact (stream_received _).trans (List.prefix_append _ _)

/-- When the loop waits, the handler has seen everything on an open connection, and keeps it. -/
theorem ServeInv.waiting (h : ServeInv env s conn) (hsize : 0 < pollSize) (hinv : Inv s)
    (hwaits : Waits pollSize s) (hadded : s.status conn = .added) :
    stream (s.calls conn) = s.arrived conn ∧ verdict env (frames (s.calls conn)) = .kept := by
  have hlive : s.status conn ≠ .deleted := by
    rw [hadded]
    decide
  have hdata : Data (s.calls conn) := hinv.returned conn hlive
  refine ⟨?_, h.known.kept hlive⟩
  rw [hdata.stream_eq, ← (hinv.drained hsize hwaits hadded).2]
  rfl

/-- On a connection whose `send`s do not fail for good, the server has sent the answers to the
requests that its calls have read, in order and up to the first one that closes, and it has deleted
the connection exactly when there is such an answer or a call has found the end of the stream. When
the loop waits, every complete request that has come from an open connection is answered. -/
theorem answers_arrivals (hsize : 0 < pollSize) (env : Env) {capacity : UInt64} {clock : ℕ → ℕ}
    {events : List (Event C)} (conn : C)
    (hsends : Run.Along (EventLoop.next pollSize (callback env C)) (Sends conn)
      (EventLoop.initial C (User.initial C capacity clock)) events)
    (hrun : Run.run (EventLoop.next pollSize (callback env C))
      (EventLoop.initial C (User.initial C capacity clock)) events = some s) :
    stream (s.calls conn) <+: s.arrived conn ∧
      acceptedBytes (s.user.deliveries conn) =
        (answers env (frames (s.calls conn))).flatMap Reply.bytes ∧
      (s.status conn = .deleted ↔ verdict env (frames (s.calls conn)) = .deleted ∨
        ∃ results ∈ s.calls conn, ending results = some true) ∧
      (Waits pollSize s → s.status conn = .added → ∃ replies,
        List.Forall₂ (fun frame reply => uncached env frame = .ok reply ∧
          reply.noMoreParse = false) (drain crlfcrlf (s.arrived conn)).1 replies ∧
        acceptedBytes (s.user.deliveries conn) = replies.flatMap Reply.bytes) := by
  obtain ⟨hinv, hserve⟩ := serveInv_run hsends hrun
  have hconn := hserve.known
  refine ⟨stream_arrived hinv conn, hconn.accepted, ⟨hconn.deleted, fun hends => ?_⟩,
    fun hwaits hadded => ?_⟩
  · by_contra hlive
    rcases hends with hverdict | ⟨results, hmem, hending⟩
    · cases (hconn.kept hlive).symm.trans hverdict
    · cases (hinv.returned conn hlive results hmem).symm.trans hending
  · obtain ⟨hall, hkept⟩ := hserve.waiting hsize hinv hwaits hadded
    refine ⟨answers env (frames (s.calls conn)), ?_, hconn.accepted⟩
    rw [← hall]
    exact answered_of_kept hkept

end

/-- A request that comes in two parts, with a request on another connection between them. -/
def twoParts : List (Event Bool) :=
  [.addConnection true, .addConnection false, .arrive true (getAndKeep.take 40), .poll, .invoke] ++
    (arrival (getAndKeep.take 40)).map .recv ++
    [.handle [], .arrive true (getAndKeep.drop 40), .arrive false getAndKeep, .poll, .invoke] ++
    (arrival (getAndKeep.drop 40)).map .recv ++ [.handle [.accepted 1000], .invoke] ++
    (arrival getAndKeep).map .recv ++ [.handle [.accepted 20, .retry, .accepted 1000]]

theorem answers_arrivals_twoParts : ∃ s,
    Run.run (EventLoop.next 2 (callback (serving (ascii "/a") (ascii "x")) Bool))
      (EventLoop.initial Bool (User.initial Bool 10 id)) twoParts = some s ∧
    ∃ replies : List Reply, replies.length = 1 ∧
      acceptedBytes (s.user.deliveries true) = replies.flatMap Reply.bytes := by
  have hsome : (Run.run (EventLoop.next 2 (callback (serving (ascii "/a") (ascii "x")) Bool))
    (EventLoop.initial Bool (User.initial Bool 10 id)) twoParts).isSome := by decide
  refine ⟨_, (Option.some_get hsome).symm, ?_⟩
  obtain ⟨-, -, -, hwaits⟩ := answers_arrivals (by decide : 0 < 2)
    (serving (ascii "/a") (ascii "x")) true (by decide +kernel) (Option.some_get hsome).symm
  obtain ⟨replies, hall, hbytes⟩ := hwaits (by rfl) (by rfl)
  exact ⟨replies, hall.length_eq.symm.trans (by rfl), hbytes⟩

end Reactor

end FalconLink.Http
