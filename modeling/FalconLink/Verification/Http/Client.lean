import FalconLink.Foundation.Messages
import FalconLink.Verification.Http.History
import FalconLink.Verification.Http.Reactor
import FalconLink.Verification.Http.Requests
import FalconLink.Verification.Http.Wire

/-! # Reading the responses

A client takes a head up to its empty line, and after it the body that the head declares, unless it
has asked for a head only. It has to know what it has asked for.
-/

namespace FalconLink.Http.Client

open Framing Splitting Messages Connection

/-- The length in the first Content-Length line of a head. -/
def contentLength (head : Bytes) : Option ℕ :=
  (((split head crlf).map Header.parse).find? fun header => header.key = headerContentLength).map
    fun header => ofDecimal header.value

/-- A response as it is read: its head and its body. -/
structure Message where
  head : Bytes
  body : Bytes
  deriving DecidableEq, Repr

def Message.bytes (message : Message) : Bytes :=
  message.head ++ message.body

/-- The next response to a request with this method. -/
def readResponse (method : Method) (buf : Bytes) : Option (Message × Bytes) :=
  match popFrame crlfcrlf buf with
  | none => none
  | some (head, rest) =>
      if method = .head then some (⟨head, []⟩, rest)
      else match contentLength head with
        | none => none
        | some length =>
            if length ≤ rest.length then some (⟨head, rest.take length⟩, rest.drop length) else none

theorem stable_readResponse : Stable readResponse := by
  intro method buf message rest more hread
  rw [readResponse] at hread ⊢
  cases hpop : popFrame crlfcrlf buf with
  | none =>
      rw [hpop] at hread
      cases hread
  | some pair =>
      obtain ⟨head, behind⟩ := pair
      rw [hpop] at hread
      rw [popFrame_append more hpop]
      simp only at hread ⊢
      split at hread
      · obtain ⟨rfl, rfl⟩ := Prod.mk.inj (Option.some.inj hread)
        simp [*]
      · rename_i hbody
        rw [if_neg hbody]
        split at hread
        · cases hread
        · rename_i length hlength
          split at hread
          · rename_i hle
            obtain ⟨rfl, rfl⟩ := Prod.mk.inj (Option.some.inj hread)
            rw [if_pos (by rw [List.length_append]; omega), List.take_append_of_le_length hle,
              List.drop_append_of_le_length hle]
          · cases hread

theorem readResponse_nil (method : Method) : readResponse method [] = none := by
  cases method <;> decide

/-- A head that was asked for alone has no body. -/
theorem readResponse_head {method : Method} {buf : Bytes} {message : Message} {rest : Bytes}
    (h : readResponse method buf = some (message, rest)) (hmethod : method = .head) :
    message.body = [] := by
  rw [readResponse] at h
  split at h
  · cases h
  · rw [if_pos hmethod] at h
    rw [← (Prod.mk.inj (Option.some.inj h)).1]

/-! ## The responses of the server -/

/-- `head` is a head of the server that declares this length. -/
def Declares (length : ℕ) (head : Bytes) : Prop :=
  ∃ statusCode shouldClose contentType, statusCode ∈ statusCodes ∧
    (∀ mime, contentType = some mime → mime ∈ mimeTypes) ∧
    head = headOf statusCode shouldClose (toDecimal length) contentType

theorem declares_plain {statusCode : Bytes} (hcode : statusCode ∈ statusCodes) (shouldClose : Bool) :
    Declares 0 ((Response.plain statusCode shouldClose).serialize []) :=
  ⟨statusCode, shouldClose, none, hcode, by simp, serialize_plain statusCode shouldClose⟩

theorem declares_ofOutput (shouldClose : Bool) (output : Bytes) :
    Declares output.length ((Response.ofOutput shouldClose output).serialize []) :=
  ⟨responseOk, shouldClose, none, by decide, by simp, serialize_ofOutput shouldClose output⟩

theorem declares_ofFile (path : Bytes) (shouldClose : Bool) (size : ℕ) :
    Declares size ((Response.ofFile path shouldClose size).serialize []) :=
  ⟨responseOk, shouldClose, _, by decide, fun _ => contentTypeOf_mem,
    serialize_ofFile path shouldClose size⟩

theorem Declares.popFrame {length : ℕ} {head : Bytes} (h : Declares length head) (body : Bytes) :
    popFrame crlfcrlf (head ++ body) = some (head, body) := by
  obtain ⟨statusCode, shouldClose, contentType, hcode, htype, hhead⟩ := h
  exact IsHead.popFrame ⟨statusCode, length, contentType, hcode, htype, hhead⟩ body

theorem Declares.contentLength {length : ℕ} {head : Bytes} (h : Declares length head) :
    contentLength head = some length := by
  obtain ⟨statusCode, shouldClose, contentType, hcode, htype, rfl⟩ := h
  have hstatus : ∀ code ∈ statusCodes,
      (Header.parse (httpVersion ++ space ++ code)).key ≠ headerContentLength := by decide
  have hserver : (Header.parse (headerServer ++ colon ++ serverFalconlink)).key ≠
      headerContentLength := by decide
  have hconnection : ∀ close : Bool, (Header.parse (headerConnection ++ colon ++
      (if close then connectionClose else connectionKeepAlive))).key ≠ headerContentLength := by
    decide
  have hline : Header.parse (headerContentLength ++ colon ++ toDecimal length) =
      Header.make headerContentLength (toDecimal length) := by
    have hfilled : toDecimal length ≠ [] := by
      rw [toDecimal, ne_eq, List.map_eq_nil_iff]
      exact Nat.toDigits_ne_nil
    have hcolon : ¬colon <:+ toDecimal length := fun h =>
      notMem_toDecimal (c := 58) rfl length (h.subset (by decide))
    rw [Header.parse_keyed (by decide) hfilled,
      (join_split (unbordered_of_length rfl) (by decide) _).1 hcolon]
  rw [Client.contentLength, split_headOf hcode htype]
  simp only [headLines, List.cons_append, List.map_cons, List.find?_cons, hstatus statusCode hcode,
    hserver, hconnection shouldClose, hline, Header.make, decide_false, decide_true, Option.map_some,
    ofDecimal_toDecimal]

theorem method_of_valid {frame : Bytes} (h : (Request.parse frame).isValid = true) :
    (Request.parse frame).method ≠ .head → (Request.parse frame).method = .get := by
  obtain ⟨m, u, v, headers, hrequest⟩ := Request.parse_sound h
  obtain ⟨close, hparse⟩ := Request.parse_complete hrequest
  rw [hparse]
  intro hhead
  simp only at hhead ⊢
  split
  · rfl
  · rename_i hget
    rw [if_neg hget] at hhead
    exact absurd rfl hhead

section

variable {env : Env} {frame : Bytes} {reply : Reply}

/-- A head declares the length of the body, or the body is left out for a HEAD request. -/
theorem declares_reply (h : uncached env frame = .ok reply) : ∃ length,
    Declares length (reply.response.serialize []) ∧
      ((Request.parse frame).method ≠ .head → reply.body.length = length) := by
  rw [uncached_eq] at h
  cases htarget : target env.httpResourceDir frame with
  | malformed =>
      rw [htarget] at h
      obtain rfl := Except.ok.inj h
      exact ⟨0, declares_plain (by decide) true, fun _ => rfl⟩
  | dynamic program arguments shouldClose =>
      rw [htarget] at h
      cases hfs : env.fs program <;> cases hrun : env.run program arguments <;>
        simp only [outcome, hfs, hrun, Except.map, Except.ok.injEq, reduceCtorEq] at h <;>
        rw [← h]
      · exact ⟨0, declares_plain (by decide) true, fun _ => rfl⟩
      · exact ⟨0, declares_plain (by decide) true, fun _ => rfl⟩
      · exact ⟨_, declares_ofOutput shouldClose _, fun _ => rfl⟩
      · exact ⟨_, declares_ofOutput shouldClose _, fun _ => rfl⟩
  | static path method shouldClose =>
      have hvalid : (Request.parse frame).isValid = true := by
        by_contra hinvalid
        rw [Bool.not_eq_true] at hinvalid
        simp [target, hinvalid] at htarget
      have hmethod := History.target_static htarget
      rw [htarget] at h
      cases hfs : env.fs path with
      | absent =>
          simp only [outcome, hfs, Except.ok.injEq] at h
          exact h ▸ ⟨0, declares_plain (by decide) true, fun _ => rfl⟩
      | regular contents =>
          simp only [outcome, hfs, Except.ok.injEq] at h
          rw [← h]
          refine ⟨contents.length, declares_ofFile path shouldClose _, fun hhead => ?_⟩
          have hget := method_of_valid hvalid hhead
          rw [hmethod] at hget
          simp [hget]
      | directory => simp [outcome, hfs] at h
      | statError => simp [outcome, hfs] at h

def messageOf (reply : Reply) : Message :=
  ⟨reply.response.serialize [], reply.body⟩

/-- A reply is read back as it was sent, unless it has a body that the client does not expect. -/
theorem readResponse_reply (h : uncached env frame = .ok reply)
    (hbody : (Request.parse frame).method = .head → reply.body = []) (more : Bytes) :
    readResponse (Request.parse frame).method ((messageOf reply).bytes ++ more) =
      some (messageOf reply, more) := by
  obtain ⟨length, hdeclares, hlength⟩ := declares_reply h
  rw [readResponse, messageOf, Message.bytes, List.append_assoc, hdeclares.popFrame]
  simp only
  by_cases hmethod : (Request.parse frame).method = .head
  · rw [if_pos hmethod, hbody hmethod]
    rfl
  · rw [if_neg hmethod, hdeclares.contentLength]
    simp [← hlength hmethod]

/-- The request is not a HEAD request for a program that gives output. -/
def Expectable (env : Env) (frame : Bytes) : Prop :=
  (Request.parse frame).isValid = true → (Request.parse frame).method = .head →
    ¬givesOutput env frame

theorem body_iff_expectable (h : uncached env frame = .ok reply) :
    ((Request.parse frame).method = .head → reply.body = []) ↔ Expectable env frame := by
  have hemits : Emits env frame reply := by
    obtain ⟨other, cache, hrun, -, rfl⟩ := (ensures_uncached h).run (holding_new _ 0 id)
    exact ⟨_, cache, hrun⟩
  cases hvalid : (Request.parse frame).isValid with
  | true =>
      constructor
      · intro hbody _ hmethod
        exact (hemits.headOnly_of_head hvalid hmethod).mp (hemits.headOnly_iff.mpr (hbody hmethod))
      · intro hquiet hmethod
        exact hemits.headOnly_iff.mp
          ((hemits.headOnly_of_head hvalid hmethod).mpr (hquiet hvalid hmethod))
  | false =>
      have hmalformed : target env.httpResourceDir frame = .malformed := by
        simp [target, hvalid]
      rw [uncached_eq, hmalformed] at h
      obtain rfl := Except.ok.inj h
      simp [Expectable, hvalid]

/-! ## The responses to a stream of requests -/

/-- The answers are those to the first frames. -/
theorem exists_answered (env : Env) (frames : List Bytes) : ∃ front back, frames = front ++ back ∧
    List.Forall₂ (fun frame reply => uncached env frame = .ok reply) front (answers env frames) := by
  induction frames with
  | nil => exact ⟨[], [], rfl, .nil⟩
  | cons frame frames ih =>
      rw [answers]
      split
      · rename_i reply hreply
        split
        · exact ⟨[frame], frames, rfl, .cons hreply .nil⟩
        · obtain ⟨front, back, rfl, hall⟩ := ih
          exact ⟨frame :: front, back, rfl, .cons hreply hall⟩
      · exact ⟨[], frame :: frames, rfl, .nil⟩

theorem answers_grow (env : Env) (front back : List Bytes) :
    answers env front <+: answers env (front ++ back) := by
  induction front with
  | nil => exact List.nil_prefix
  | cons frame front ih =>
      rw [List.cons_append, answers, answers]
      split
      · split
        · exact List.prefix_rfl
        · exact (List.prefix_cons_inj _).mpr ih
      · exact List.prefix_rfl

theorem forall_readResponse {frames : List Bytes} {replies : List Reply}
    (h : List.Forall₂ (fun frame reply => uncached env frame = .ok reply) frames replies)
    (hquiet : ∀ frame ∈ frames, Expectable env frame) :
    List.Forall₂ (fun method message => ∀ more,
        readResponse method (message.bytes ++ more) = some (message, more))
      (frames.map fun frame => (Request.parse frame).method) (replies.map messageOf) := by
  induction h with
  | nil => exact .nil
  | cons hreply _ ih =>
      obtain ⟨hfirst, hrest⟩ := List.forall_mem_cons.mp hquiet
      exact .cons (readResponse_reply hreply ((body_iff_expectable hreply).mpr hfirst)) (ih hrest)

theorem expectable_of_bodies {frames : List Bytes} {replies : List Reply}
    (h : List.Forall₂ (fun frame reply => uncached env frame = .ok reply) frames replies)
    (hbodies : List.Forall₂ (fun frame reply => (Request.parse frame).method = .head →
      (messageOf reply).body = []) frames replies) : ∀ frame ∈ frames, Expectable env frame := by
  induction h with
  | nil => simp
  | cons hreply _ ih =>
      obtain ⟨hfirst, hrest⟩ := List.forall₂_cons.mp hbodies
      exact List.forall_mem_cons.mpr ⟨(body_iff_expectable hreply).mp hfirst, ih hrest⟩

theorem flatMap_messageOf (replies : List Reply) :
    (replies.map messageOf).flatMap Message.bytes = replies.flatMap Reply.bytes := by
  rw [List.flatMap_map]
  rfl

end

section

open EventLoop Session Reactor

variable {C : Type} [DecidableEq C] {pollSize : ℕ} {s : State C (User C)}

/-- The methods of the requests that have come from a client. -/
def methods (s : State C (User C)) (conn : C) : List Method :=
  (drain crlfcrlf (s.arrived conn)).1.map fun frame => (Request.parse frame).method

omit [DecidableEq C] in
/-- What has been accepted are the first answers to what has arrived. -/
theorem accepted_answers {env : Env} {conn : C}
    (h : ConnInv env (s.status conn) (s.user.conns conn) (s.user.deliveries conn) (s.calls conn))
    (harrived : stream (s.calls conn) <+: s.arrived conn) :
    acceptedBytes (s.user.deliveries conn) <+:
      (answers env (drain crlfcrlf (s.arrived conn)).1).flatMap Reply.bytes := by
  obtain ⟨more, hmore⟩ := harrived
  rw [h.accepted, ← hmore, drain_append crlfcrlf_ne_nil]
  obtain ⟨later, hlater⟩ := answers_grow env (frames (s.calls conn))
    (drain crlfcrlf ((drain crlfcrlf (stream (s.calls conn))).2 ++ more)).1
  rw [frames] at hlater ⊢
  rw [← hlater, List.flatMap_append]
  exact List.prefix_append _ _

/-- A client to which no `::send` fails for good, and which knows what it has asked for, reads the
answers to its requests, in order, from whatever has come back so far, when none of them is a HEAD
request that a program answers with output. When the loop waits and the connection is open, it
reads one answer to each request and nothing is left exactly when there is no such request. -/
theorem reads_answers (hsize : 0 < pollSize) (env : Env) {capacity : UInt64} {clock : ℕ → ℕ}
    {events : List (Event C)} (conn : C)
    (hsends : Run.Along (EventLoop.next pollSize (callback env C)) (Sends conn)
      (EventLoop.initial C (User.initial C capacity clock)) events)
    (hrun : Run.run (EventLoop.next pollSize (callback env C))
      (EventLoop.initial C (User.initial C capacity clock)) events = some s) :
    ((∀ frame ∈ (drain crlfcrlf (s.arrived conn)).1, Expectable env frame) →
      ∀ bytes, bytes <+: acceptedBytes (s.user.deliveries conn) →
        (readAll readResponse (methods s conn) bytes).1 <+:
          (answers env (drain crlfcrlf (s.arrived conn)).1).map messageOf) ∧
      (Waits pollSize s → s.status conn = .added → ∃ replies,
        List.Forall₂ (fun frame reply => uncached env frame = .ok reply)
          (drain crlfcrlf (s.arrived conn)).1 replies ∧
        (readAll readResponse (methods s conn) (acceptedBytes (s.user.deliveries conn)) =
            (replies.map messageOf, []) ↔
          ∀ frame ∈ (drain crlfcrlf (s.arrived conn)).1, Expectable env frame)) := by
  obtain ⟨hinv, hserve⟩ := serveInv_run hsends hrun
  have hconn := hserve.known
  constructor
  · intro hquiet bytes hbytes
    obtain ⟨more, hmore⟩ := hbytes.trans (accepted_answers hconn (stream_arrived hinv conn))
    obtain ⟨front, back, hrequests, hanswered⟩ :=
      exists_answered env (drain crlfcrlf (s.arrived conn)).1
    have hread := readAll_append_expected (back.map fun frame => (Request.parse frame).method)
      readResponse_nil (forall_readResponse hanswered fun frame hmem =>
        hquiet frame (hrequests ▸ List.mem_append_left back hmem))
    rw [flatMap_messageOf, ← List.map_append, ← hrequests, ← hmore] at hread
    have hgrows := stable_readResponse.readAll_append (methods s conn) bytes more
    rwa [methods, hread] at hgrows
  · intro hwaits hadded
    obtain ⟨hall, hkept⟩ := hserve.waiting hsize hinv hwaits hadded
    have hanswered : List.Forall₂ (fun frame reply => uncached env frame = .ok reply)
        (drain crlfcrlf (s.arrived conn)).1 (answers env (frames (s.calls conn))) := by
      rw [← hall]
      exact (answered_of_kept hkept).imp fun _ _ h => h.1
    refine ⟨answers env (frames (s.calls conn)), hanswered, ?_⟩
    rw [hconn.accepted, methods]
    constructor
    · intro hread
      have hbodies := @forall_of_readAll _ _ _ readResponse
        (fun method message => method = .head → message.body = [])
        (fun _ _ _ _ hread => readResponse_head hread) _ _ _ _ hread
        (by rw [List.length_map, List.length_map, hanswered.length_eq])
      rw [List.forall₂_map_left_iff, List.forall₂_map_right_iff] at hbodies
      exact expectable_of_bodies hanswered hbodies
    · intro hquiet
      have hread := readAll_flatMap (forall_readResponse hanswered hquiet) []
      rwa [flatMap_messageOf, List.append_nil] at hread

theorem reads_answers_twoParts : ∃ s,
    Run.run (EventLoop.next 2 (callback (serving (ascii "/a") (ascii "x")) Bool))
      (EventLoop.initial Bool (User.initial Bool 10 id)) twoParts = some s ∧
    ∃ replies : List Reply, replies.length = 1 ∧
      readAll readResponse (methods s true) (acceptedBytes (s.user.deliveries true)) =
        (replies.map messageOf, []) := by
  have hsome : (Run.run (EventLoop.next 2 (callback (serving (ascii "/a") (ascii "x")) Bool))
    (EventLoop.initial Bool (User.initial Bool 10 id)) twoParts).isSome := by decide
  refine ⟨_, (Option.some_get hsome).symm, ?_⟩
  have hframes : (drain crlfcrlf ((Option.get _ hsome).arrived true)).1 = [getAndKeep] := by rfl
  obtain ⟨replies, hall, hread⟩ := (reads_answers (by decide : 0 < 2)
    (serving (ascii "/a") (ascii "x")) true (by decide +kernel) (Option.some_get hsome).symm).2 (by rfl)
      (by rfl)
  refine ⟨replies, hall.length_eq.symm.trans (by rw [hframes]; rfl), hread.mpr ?_⟩
  rw [hframes]
  intro frame hmem _ hhead
  rw [List.mem_singleton.mp hmem] at hhead
  exact absurd hhead (by decide)

end

end FalconLink.Http.Client
