import FalconLink.Verification.Http.Announcements

/-! # Responses on the wire -/

namespace FalconLink.Http

open Framing Splitting Connection

variable {env : Env} {frame : Bytes} {reply : Reply}

namespace Session

/-- However a call of the handler ends, its responses are replies to the first frames that are
there, in order. -/
theorem processHttpRequest_emits (env : Env) {s : Session} (hs : s.status = .kept)
    (results : List RecvResult) : ∃ popped replies,
      popped <+: (drain crlfcrlf (s.conn.readBuf ++ received results)).1 ∧
      (processHttpRequest env s results).responses = s.responses ++ replies.map Reply.bytes ∧
      List.Forall₂ (Emits env) popped replies := by
  rw [processHttpRequest_eq]
  cases ending results with
  | none => exact ⟨[], [], List.nil_prefix, by simp [responses], .nil⟩
  | some exit =>
      cases exit with
      | true => exact ⟨[], [], List.nil_prefix, by simp [responses, withReadBuf], .nil⟩
      | false =>
          obtain ⟨popped, replies, rest, h⟩ := @serveLoop_served env _
            (s.withReadBuf (s.conn.readBuf ++ received results)) le_rfl hs
          exact ⟨popped, replies, h.pops.initial crlfcrlf_ne_nil, h.responses, h.emits⟩

end Session

/-! ## Responses without a body -/

/-- The response ends with the first empty line. -/
def HeadOnly (response : Bytes) : Prop :=
  popFrame crlfcrlf response = some (response, [])

instance (response : Bytes) : Decidable (HeadOnly response) :=
  inferInstanceAs (Decidable (popFrame crlfcrlf response = some (response, [])))

theorem Emits.headOnly_iff (h : Emits env frame reply) : HeadOnly reply.bytes ↔ reply.body = [] := by
  rw [HeadOnly, Reply.bytes, h.possible.isHead.popFrame]
  constructor
  · intro heq
    exact (Prod.mk.inj (Option.some.inj heq)).2
  · intro hbody
    simp [hbody]

/-- The request is for a CGI program that is there and gives output. -/
def givesOutput (env : Env) (requestOp : Bytes) : Prop :=
  let path := env.httpResourceDir ++ (Request.parse requestOp).getResourceUrl
  isCgiRequest path = true ∧ env.fs (Cgier.parseCgier path).cgiProgramPath ≠ .absent ∧
    env.run (Cgier.parseCgier path).cgiProgramPath (Cgier.parseCgier path).cgiArguments ≠ .ok []

theorem exec_isFileExists {path : Bytes} {there : Bool} {s s' : Cache}
    (h : exec env (.isFileExists path) s = .ok (there, s')) :
    there = true ↔ env.fs path ≠ .absent := by
  cases hfs : env.fs path <;>
    simp [exec, execWith, isFileExists, hfs, Except.map] at h <;> simp [← h.1]

/-- The body of a reply to a program is what the program gives. -/
theorem Emits.body_of_dynamic {program : Bytes} {arguments : List Bytes} {shouldClose : Bool}
    (h : Emits env frame reply)
    (htarget : target env.httpResourceDir frame = .dynamic program arguments shouldClose) :
    reply.body = [] ↔ ¬(env.fs program ≠ .absent ∧ env.run program arguments ≠ .ok []) := by
  obtain ⟨cache, cache', hrun⟩ := h
  rw [respond_eq, htarget, answer] at hrun
  obtain ⟨there, s, hcheck, hrun⟩ := Prog.exists_step hrun
  have hthere := exec_isFileExists hcheck
  cases there with
  | false =>
      obtain ⟨rfl, -⟩ := Prod.mk.inj (Except.ok.inj hrun)
      have habsent : env.fs program = .absent := by simpa using hthere
      simp [habsent]
  | true =>
      obtain ⟨output, t, houtput, hrun⟩ := Prog.exists_step hrun
      obtain ⟨rfl, -⟩ := Prod.mk.inj (Except.ok.inj hrun)
      have hprogram : env.run program arguments = .ok output := by
        cases hrun : env.run program arguments with
        | error fault => simp [exec, execWith, hrun, Except.map] at houtput
        | ok value =>
            simp only [exec, execWith, hrun, Except.map, Except.ok.injEq, Prod.mk.injEq] at houtput
            rw [houtput.1]
      rw [hprogram]
      simp [← hthere]

/-- What answers a HEAD request is a head alone, unless it is the output of a program. -/
theorem Emits.headOnly_of_head (h : Emits env frame reply)
    (hvalid : (Request.parse frame).isValid = true)
    (hhead : (Request.parse frame).method = .head) :
    HeadOnly reply.bytes ↔ ¬givesOutput env frame := by
  rw [h.headOnly_iff]
  by_cases hcgi : isCgiRequest (env.httpResourceDir ++ (Request.parse frame).getResourceUrl) = true
  · rw [h.body_of_dynamic (target_of_cgi hvalid hcgi)]
    simp [givesOutput, hcgi]
  · have hbody := h.possible
    rw [target_of_static hvalid (by simpa using hcgi), hhead] at hbody
    refine iff_of_true ?_ (by simp [givesOutput, hcgi])
    cases hbody with
    | noFile => rfl
    | file path method shouldClose size body hbody => exact hbody (by decide)
    | gone path method shouldClose body hbody => exact hbody (by decide)

namespace Session

/-- The responses of a call to valid HEAD requests end with their heads exactly when no program
gives output for them. -/
theorem processHttpRequest_head (env : Env) {s : Session} (hs : s.status = .kept)
    (results : List RecvResult) : ∃ popped responses,
      popped <+: (drain crlfcrlf (s.conn.readBuf ++ received results)).1 ∧
      (processHttpRequest env s results).responses = s.responses ++ responses ∧
      List.Forall₂ (fun frame response => (Request.parse frame).isValid = true →
        (Request.parse frame).method = .head →
          (HeadOnly response ↔ ¬givesOutput env frame)) popped responses := by
  obtain ⟨popped, replies, hfront, hresponses, hemits⟩ := processHttpRequest_emits env hs results
  refine ⟨popped, replies.map Reply.bytes, hfront, hresponses, ?_⟩
  rw [List.forall₂_map_right_iff]
  exact hemits.imp fun frame reply h hvalid hhead => h.headOnly_of_head hvalid hhead

/-- A server of one CGI program. -/
def calling (program output : Bytes) : Env :=
  ⟨[], fun p => if p = program then .regular [] else .absent, fun _ _ => .ok output⟩

def headAndClose : Bytes :=
  ascii "HEAD /cgi-bin/x& HTTP/1.1\r\n\r\n"

theorem processHttpRequest_head_calling : ∃ popped responses,
    popped <+: (drain crlfcrlf ((start (Cache.new 10 id) [.accepted 1000]).conn.readBuf ++
      received (arrival headAndClose))).1 ∧
    (processHttpRequest (calling (ascii "/cgi-bin/x") []) (start (Cache.new 10 id) [.accepted 1000])
      (arrival headAndClose)).responses =
        (start (Cache.new 10 id) [.accepted 1000]).responses ++ responses ∧
    List.Forall₂ (fun frame response => (Request.parse frame).isValid = true →
      (Request.parse frame).method = .head →
        (HeadOnly response ↔ ¬givesOutput (calling (ascii "/cgi-bin/x") []) frame))
      popped responses :=
  processHttpRequest_head _ rfl _

/-- The output of a program follows the head. -/
theorem processHttpRequest_head_body :
    (Request.parse headAndClose).isValid = true ∧ (Request.parse headAndClose).method = .head ∧
      ∃ response, (processHttpRequest (calling (ascii "/cgi-bin/x") (ascii "hello"))
          (start (Cache.new 10 id) [.accepted 1000]) (arrival headAndClose)).responses = [response] ∧
        ¬HeadOnly response := by
  refine ⟨by decide, by decide, (processHttpRequest (calling (ascii "/cgi-bin/x") (ascii "hello"))
    (start (Cache.new 10 id) [.accepted 1000]) (arrival headAndClose)).responses.headD [], ?_, ?_⟩
  · decide
  · decide

end Session

/-! ## Heads without injected lines -/

/-- The head of a response: the empty line stands at its end and nowhere else, and its lines are
the status line and the headers of the server, with at most one type. -/
structure Unsplit (head : Bytes) : Prop where
  once : ∀ pos, crlfcrlf <+: head.drop pos ↔ pos + crlfcrlf.length = head.length
  lines : ∃ statusCode shouldClose length contentType, statusCode ∈ statusCodes ∧
    (∀ mime, contentType = some mime → mime ∈ mimeTypes) ∧
    head = terminated crlf (headLines statusCode shouldClose (toDecimal length) contentType) ++ crlf ∧
    ∀ line ∈ headLines statusCode shouldClose (toDecimal length) contentType, ¬crlf <:+: line

theorem IsHead.unsplit {shouldClose : Bool} {head : Bytes} (h : IsHead shouldClose head) :
    Unsplit head where
  once := popFrame_occurs_iff Session.crlfcrlf_ne_nil (by simpa using h.popFrame [])
  lines := by
    obtain ⟨statusCode, length, contentType, hcode, htype, rfl⟩ := h
    exact ⟨statusCode, shouldClose, length, contentType, hcode, htype, rfl,
      fun line hline => (headLines_filled hcode htype shouldClose line hline).2⟩

/-- The request is valid and asks for a file that exists, with this path and these contents. -/
structure AsksFor (env : Env) (requestOp path contents : Bytes) : Prop where
  valid : (Request.parse requestOp).isValid = true
  path_eq : path = env.httpResourceDir ++ (Request.parse requestOp).getResourceUrl
  static : isCgiRequest path = false
  file : env.fs path = .regular contents

theorem Emits.response_of_file {path contents : Bytes} (h : Emits env frame reply)
    (hfile : AsksFor env frame path contents) :
    reply.response =
      Response.ofFile path (Request.parse frame).shouldClose contents.length := by
  obtain ⟨cache, cache', hrun⟩ := h
  obtain ⟨hvalid, rfl, hstatic, hfs⟩ := hfile
  rw [respond_eq, target_of_static hvalid hstatic, answer] at hrun
  obtain ⟨there, s, hcheck, hrun⟩ := Prog.exists_step hrun
  obtain rfl : there = true := (exec_isFileExists hcheck).mpr (by simp [hfs])
  simp only [if_true, Response.make_some, Prog.call_bind] at hrun
  obtain ⟨still, s', hcheck, hrun⟩ := Prog.exists_step hrun
  obtain rfl : still = true := (exec_isFileExists hcheck).mpr (by simp [hfs])
  simp only [if_true, Prog.call_bind, Prog.ret_bind] at hrun
  obtain ⟨size, s'', hsize, hrun⟩ := Prog.exists_step hrun
  obtain rfl : contents.length = size := by
    simp only [exec, execWith, getFileSize_regular hfs, Except.map, Except.ok.injEq,
      Prod.mk.injEq] at hsize
    exact hsize.1
  split at hrun
  · obtain ⟨body, rfl⟩ := returns_fetch (Prog.returns_of_run hrun)
    rfl
  · obtain ⟨rfl, -⟩ := Prod.mk.inj (Except.ok.inj hrun)
    rfl

/-- Every response is the reply to a frame, its head is not split by anything that the request
holds, and the heads for two files differ in nothing but what is announced for the connection,
their sizes and their types. -/
theorem emits_unsplit :
    (∀ (env : Env) (s : Session) (results : List RecvResult), s.status = .kept →
      ∃ popped replies, popped <+: (drain crlfcrlf (s.conn.readBuf ++ received results)).1 ∧
        (s.processHttpRequest env results).responses = s.responses ++ replies.map Reply.bytes ∧
        List.Forall₂ (Emits env) popped replies) ∧
    (∀ (env : Env) (requestOp : Bytes) (reply : Reply), Emits env requestOp reply →
      Unsplit (reply.response.serialize [])) ∧
    ∀ (env env' : Env) (requestOp requestOp' path path' contents contents' : Bytes)
      (reply reply' : Reply), Emits env requestOp reply → Emits env' requestOp' reply' →
      AsksFor env requestOp path contents → AsksFor env' requestOp' path' contents' →
      (Request.parse requestOp).shouldClose = (Request.parse requestOp').shouldClose →
      contents.length = contents'.length →
      (Response.afterLastDot path).map toExtension = (Response.afterLastDot path').map toExtension →
      reply.response.serialize [] = reply'.response.serialize [] := by
  refine ⟨fun env s results hs => Session.processHttpRequest_emits env hs results,
    fun env requestOp reply h => h.possible.isHead.unsplit, ?_⟩
  intro env env' requestOp requestOp' path path' contents contents' reply reply' h h' hfile hfile'
    hclose hsize hclass
  have htype : contentTypeOf path = contentTypeOf path' := by
    have hmime := congrArg (Option.map extensionToMime) hclass
    simpa [contentTypeOf, Function.comp_def] using hmime
  rw [h.response_of_file hfile, h'.response_of_file hfile', serialize_ofFile, serialize_ofFile,
    hclose, hsize, htype]

/-- A request for the file `/b`. -/
def getOther : Bytes :=
  ascii "GET /b HTTP/1.1\r\nConnection: Keep-Alive\r\n\r\n"

theorem emits_unsplit_serving : ∃ reply reply',
    Emits (serving (ascii "/a") (ascii "x")) getAndKeep reply ∧
      Emits (serving (ascii "/b") (ascii "y")) getOther reply' ∧
      reply.response.serialize [] = reply'.response.serialize [] := by
  have hemits : ∀ {env : Env} {frame : Bytes}, ((respond env.httpResourceDir frame).run (exec env)
      (Cache.new 10 id)).isOk = true → ∃ reply, Emits env frame reply := by
    intro env frame hok
    cases hrun : (respond env.httpResourceDir frame).run (exec env) (Cache.new 10 id) with
    | error fault => simp [hrun, Except.isOk, Except.toBool] at hok
    | ok out => exact ⟨out.1, _, out.2, hrun⟩
  obtain ⟨reply, h⟩ := @hemits (serving (ascii "/a") (ascii "x")) getAndKeep (by decide)
  obtain ⟨reply', h'⟩ := @hemits (serving (ascii "/b") (ascii "y")) getOther (by decide)
  have hfile : AsksFor (serving (ascii "/a") (ascii "x")) getAndKeep (ascii "/a") (ascii "x") :=
    ⟨by decide, by decide, by decide, by decide⟩
  have hfile' : AsksFor (serving (ascii "/b") (ascii "y")) getOther (ascii "/b") (ascii "y") :=
    ⟨by decide, by decide, by decide, by decide⟩
  exact ⟨reply, reply', h, h', emits_unsplit.2.2 _ _ _ _ _ _ _ _ _ _ h h' hfile hfile' (by decide)
    rfl (by decide)⟩

end FalconLink.Http
