import FalconLink.Verification.Http.Cgi
import FalconLink.Verification.Http.Client
import FalconLink.Verification.Http.Closing
import FalconLink.Verification.Http.UrlCoding

/-! # Fetching resources by their names

A client writes the encoding of a name into its request and keeps the connection open. What it reads
is what the name stands for, a file or the output of a program.
-/

namespace FalconLink.Http.Client

open Framing Splitting Messages Connection

/-! ## Requests -/

def keepAliveLine : Bytes :=
  headerConnection ++ colon ++ connectionKeepAlive

/-- A request for the resource with this name. -/
def requestFor (name : Bytes) : Bytes :=
  terminated crlf [Method.get.toBytes ++ space ++ urlEncode name ++ space ++
    Version.http1_1.toBytes, keepAliveLine] ++ crlf

section

variable {name : Bytes}

theorem notMem_urlEncode {c : UInt8} (hc : isAlnum c = false ∧ c ∉ ascii "-_.~%") (name : Bytes) :
    c ∉ urlEncode name := by
  intro hmem
  rw [urlEncode_eq] at hmem
  obtain ⟨b, -, hb⟩ := List.mem_flatMap.mp hmem
  rcases encoded_alphabet b c hb with halnum | hother
  · rw [hc.1] at halnum
    cases halnum
  · exact hc.2 hother

theorem urlDecode_urlEncode (name : Bytes) : urlDecode (urlEncode name) = name := by
  rw [urlEncode_eq]
  exact (encodes_flatMap name).urlDecode_eq

theorem isRequest_requestFor (name : Bytes) :
    IsRequest Method.get.toBytes (urlEncode name) Version.http1_1.toBytes [keepAliveLine]
      (requestFor name) where
  lines := by
    refine ⟨_, ⟨.inl rfl, by decide, ?_, by decide, by decide, by decide⟩, ?_, rfl⟩
    · exact fun h => notMem_urlEncode (by decide) name (h.subset List.mem_cons_self)
    · intro h
      have hcr : 13 ∈ Method.get.toBytes ++ space ++ urlEncode name ++ space ++
          Version.http1_1.toBytes := h.subset List.mem_cons_self
      simp only [List.mem_append] at hcr
      rcases hcr with (((hcr | hcr) | hcr) | hcr) | hcr
      · exact absurd hcr (by decide)
      · exact absurd hcr (by decide)
      · exact notMem_urlEncode (by decide) name hcr
      · exact absurd hcr (by decide)
      · exact absurd hcr (by decide)
  headers_free := by decide
  headers_valid := by decide

/-- What the server reads in the request. -/
theorem parse_requestFor (hname : name ≠ []) :
    (Request.parse (requestFor name)).isValid = true ∧
      (Request.parse (requestFor name)).method = .get ∧
      (Request.parse (requestFor name)).shouldClose = false ∧
      (Request.parse (requestFor name)).getResourceUrl = name := by
  have hrequest := isRequest_requestFor name
  have hopen := (Request.parse_shouldClose hrequest).mpr (by decide)
  have hfilled : urlEncode name ≠ [] := by
    intro hnil
    have hdecoded := urlDecode_urlEncode name
    rw [hnil] at hdecoded
    exact hname hdecoded.symm
  have hslash : (urlEncode name).getLast? ≠ some 47 := fun hlast =>
    notMem_urlEncode (by decide) name (List.mem_of_getLast? hlast)
  obtain ⟨close, hparse⟩ := Request.parse_complete hrequest
  refine ⟨by rw [hparse], by rw [hparse]; rfl, hopen, ?_⟩
  rw [hparse, Request.getResourceUrl]
  simp [hfilled, hslash, urlDecode_urlEncode]

/-- A request ends where the next one begins. -/
theorem popFrame_requestFor (name more : Bytes) :
    popFrame crlfcrlf (requestFor name ++ more) = some (requestFor name, more) := by
  obtain ⟨line, -, hfree, hlines⟩ := (isRequest_requestFor name).lines
  rw [hlines]
  exact popFrame_double (by decide) (by decide) hfree (by decide) more

end

/-! ## Resources -/

/-- What the server has under a name: a file, or a program with arguments and its output. -/
inductive Serves (env : Env) (name : Bytes) : Bytes → Prop where
  | file {contents : Bytes} (hstatic : isCgiRequest (env.httpResourceDir ++ name) = false)
      (hfile : env.fs (env.httpResourceDir ++ name) = .regular contents) :
      Serves env name contents
  | output {program argument contents output : Bytes} {arguments : List Bytes}
      (hurl : env.httpResourceDir ++ name = Cgier.cgiUrl program (argument :: arguments))
      (hprogram : Cgier.IsProgramPath program)
      (harguments : ∀ a ∈ argument :: arguments, Cgier.IsArgument a)
      (hfile : env.fs program = .regular contents)
      (hrun : env.run program (argument :: arguments) = .ok output) : Serves env name output

theorem uncached_requestFor {env : Env} {name body : Bytes} (hname : name ≠ [])
    (h : Serves env name body) : ∃ reply, uncached env (requestFor name) = .ok reply ∧
      reply.body = body ∧ reply.noMoreParse = false := by
  obtain ⟨hvalid, hmethod, hopen, hurl⟩ := parse_requestFor hname
  rw [uncached_eq]
  cases h with
  | file hstatic hfile =>
      rw [← hurl] at hstatic
      rw [target_of_static hvalid hstatic, hmethod, hopen, hurl, outcome, hfile]
      exact ⟨_, rfl, rfl, rfl⟩
  | @output program argument contents output arguments heq hprogram harguments hfile hrun =>
      have hparsed := Cgier.parseCgier_cons hprogram harguments
      rw [← heq] at hparsed
      have hcgi : isCgiRequest (env.httpResourceDir ++ name) = true := by
        obtain ⟨pos, hpos, -⟩ := hprogram
        rw [heq, Cgier.cgiUrl, isCgiRequest, Search.firstMatch_append _ hpos]
        rfl
      rw [← hurl] at hcgi
      rw [target_of_cgi hvalid hcgi, hopen, hurl, hparsed, outcome]
      simp only [hfile, hrun]
      exact ⟨_, rfl, rfl, rfl⟩

/-! ## A client that fetches resources -/

/-- A name and what the server has under it. -/
structure Resource where
  name : Bytes
  body : Bytes
  deriving DecidableEq, Repr

structure Resource.Available (env : Env) (resource : Resource) : Prop where
  named : resource.name ≠ []
  serves : Serves env resource.name resource.body

/-- The reply to the request for a resource. -/
structure Resource.IsReply (env : Env) (resource : Resource) (reply : Reply) : Prop where
  answered : uncached env (requestFor resource.name) = .ok reply
  body : reply.body = resource.body
  kept : reply.noMoreParse = false

/-- The requests for the resources, in a row. -/
def requests (resources : List Resource) : Bytes :=
  resources.flatMap fun resource => requestFor resource.name

theorem drain_requests (resources : List Resource) : drain crlfcrlf (requests resources) =
    (resources.map fun resource => requestFor resource.name, []) :=
  drain_flatMap Session.crlfcrlf_ne_nil
    (fun (resource : Resource) more => popFrame_requestFor resource.name more) resources

section

variable {env : Env} {resources : List Resource}

theorem isReply_answers (h : ∀ resource ∈ resources, resource.Available env) :
    List.Forall₂ (Resource.IsReply env) resources
      (answers env (resources.map fun resource => requestFor resource.name)) := by
  induction resources with
  | nil => exact .nil
  | cons resource resources ih =>
      obtain ⟨hfirst, hrest⟩ := List.forall_mem_cons.mp h
      obtain ⟨reply, hreply, hbody, hopen⟩ := uncached_requestFor hfirst.named hfirst.serves
      simp only [List.map_cons, answers, hreply, hopen, Bool.false_eq_true, if_false]
      exact .cons ⟨hreply, hbody, hopen⟩ (ih hrest)

theorem bodies_of_replies {replies : List Reply}
    (h : List.Forall₂ (Resource.IsReply env) resources replies) :
    (replies.map messageOf).map Message.body = resources.map Resource.body := by
  induction h with
  | nil => rfl
  | cons hreply _ ih =>
      rw [List.map_cons, List.map_cons, List.map_cons, ih, messageOf, hreply.body]

/-- The whole stream of replies is read back. -/
theorem readAll_replies (h : ∀ resource ∈ resources, resource.Available env) {replies : List Reply}
    (hreplies : List.Forall₂ (Resource.IsReply env) resources replies) :
    readAll readResponse (resources.map fun _ => .get) (replies.flatMap Reply.bytes) =
      (replies.map messageOf, []) := by
  have hread : List.Forall₂ (fun method message => ∀ more,
      readResponse method (message.bytes ++ more) = some (message, more))
      (resources.map fun _ => .get) (replies.map messageOf) := by
    rw [List.forall₂_map_left_iff, List.forall₂_map_right_iff]
    induction hreplies with
    | nil => exact .nil
    | @cons resource reply _ _ hreply _ ih =>
        obtain ⟨hfirst, hrest⟩ := List.forall_mem_cons.mp h
        have hmethod := (parse_requestFor hfirst.named).2.1
        refine .cons (fun more => ?_) (ih hrest)
        have hone := readResponse_reply hreply.answered (fun hhead => by simp [hmethod] at hhead) more
        rwa [hmethod] at hone
  have hall := readAll_flatMap hread []
  rwa [flatMap_messageOf, List.append_nil] at hall

end

section

open EventLoop Session Reactor

variable {C : Type} [DecidableEq C] {pollSize : ℕ} {s : State C (User C)}

/-- A client to which no `::send` fails for good, and which asks for resources by their names, one
after the other and without waiting, reads what they hold, in order, as far as the answers have
come. When the server has seen all requests, waits, and has the connection open, the client has
everything and nothing is left over. -/
theorem fetches (hsize : 0 < pollSize) (env : Env) {capacity : UInt64} {clock : ℕ → ℕ}
    {events : List (Event C)} (conn : C)
    (hsends : Run.Along (EventLoop.next pollSize (callback env C)) (Sends conn)
      (EventLoop.initial C (User.initial C capacity clock)) events)
    (hrun : Run.run (EventLoop.next pollSize (callback env C))
      (EventLoop.initial C (User.initial C capacity clock)) events = some s)
    {resources : List Resource} (havailable : ∀ resource ∈ resources, resource.Available env)
    (harrived : s.arrived conn <+: requests resources) :
    (∀ bytes, bytes <+: acceptedBytes (s.user.deliveries conn) →
      (readAll readResponse (resources.map fun _ => .get) bytes).1.map Message.body <+:
        resources.map Resource.body) ∧
      (Waits pollSize s → s.status conn = .added → s.arrived conn = requests resources →
        ∃ messages, readAll readResponse (resources.map fun _ => .get)
            (acceptedBytes (s.user.deliveries conn)) = (messages, []) ∧
          messages.map Message.body = resources.map Resource.body) := by
  obtain ⟨hinv, hserve⟩ := serveInv_run hsends hrun
  have hconn := hserve.known
  have hreplies := isReply_answers havailable
  have hread := readAll_replies havailable hreplies
  constructor
  · intro bytes hbytes
    have haccepted := accepted_answers hconn (stream_arrived hinv conn)
    have hmore : (answers env (drain crlfcrlf (s.arrived conn)).1).flatMap Reply.bytes <+:
        (answers env (resources.map fun resource => requestFor resource.name)).flatMap
          Reply.bytes := by
      obtain ⟨later, hlater⟩ := harrived
      have hdrain := drain_requests resources
      rw [← hlater, drain_append crlfcrlf_ne_nil] at hdrain
      rw [← (Prod.mk.inj hdrain).1]
      obtain ⟨others, hothers⟩ := answers_grow env (drain crlfcrlf (s.arrived conn)).1
        (drain crlfcrlf ((drain crlfcrlf (s.arrived conn)).2 ++ later)).1
      rw [← hothers, List.flatMap_append]
      exact List.prefix_append _ _
    obtain ⟨rest, hrest⟩ := hbytes.trans (haccepted.trans hmore)
    have hgrows := stable_readResponse.readAll_append (resources.map fun _ => .get) bytes rest
    rw [hrest, hread] at hgrows
    exact bodies_of_replies hreplies ▸ hgrows.map Message.body
  · intro hwaits hadded hall
    obtain ⟨hseen, -⟩ := hserve.waiting hsize hinv hwaits hadded
    have hframes : frames (s.calls conn) = resources.map fun resource => requestFor resource.name := by
      rw [frames, hseen, hall, drain_requests]
    refine ⟨_, ?_, bodies_of_replies hreplies⟩
    rw [hconn.accepted, hframes]
    exact hread

/-- The file `/a` is asked for twice. -/
def twice : List Resource :=
  List.replicate 2 ⟨ascii "/a", ascii "x"⟩

def fetchTwice : List (Event Bool) :=
  [.addConnection true, .arrive true (requests twice), .poll, .invoke] ++
    (arrival (requests twice)).map .recv ++ [.handle [.accepted 70, .retry, .accepted 70, .accepted 1000]]

theorem fetches_twice : ∃ s,
    Run.run (EventLoop.next 1 (callback (serving (ascii "/a") (ascii "x")) Bool))
      (EventLoop.initial Bool (User.initial Bool 10 id)) fetchTwice = some s ∧
    ∃ messages, readAll readResponse [.get, .get] (acceptedBytes (s.user.deliveries true)) =
      (messages, []) ∧ messages.map Message.body = [ascii "x", ascii "x"] := by
  have hsome : (Run.run (EventLoop.next 1 (callback (serving (ascii "/a") (ascii "x")) Bool))
    (EventLoop.initial Bool (User.initial Bool 10 id)) fetchTwice).isSome := by decide
  refine ⟨_, (Option.some_get hsome).symm, ?_⟩
  have havailable : ∀ resource ∈ twice,
      resource.Available (serving (ascii "/a") (ascii "x")) := by
    intro resource hmem
    rw [List.eq_of_mem_replicate hmem]
    exact ⟨by decide, .file (by decide) (by decide)⟩
  exact (fetches (by decide : 0 < 1) _ true (by decide +kernel) (Option.some_get hsome).symm havailable
    ⟨[], by rfl⟩).2 (by rfl) (by rfl) (by rfl)

end

end FalconLink.Http.Client
